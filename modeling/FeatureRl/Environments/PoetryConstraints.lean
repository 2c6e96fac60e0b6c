import FeatureRl.Environments.Conditions
import FeatureRl.Lib.Gather
import Mathlib.Data.List.GetD
import Mathlib.Data.Nat.Digits.Defs

/-!
Version constraints in the notation of Poetry and the specifiers they become. A caret or a tilde keeps some leading
components of a version, and the two clauses it becomes bound exactly the versions that do.
-/

namespace FeatureRl

open Checked

namespace PoetrySpec

open CiText (isSpace strip)

abbrev Text := List Char

/-- What Python takes as a decimal digit. -/
structure Decimals where
  value : Char → Option Nat
  small : ∀ c d, value c = some d → d < 10
  ascii : ∀ c, c.isDigit = true → value c = some (c.toNat - '0'.toNat)
  mark : ∀ c ∈ ['.', '*', '^', '~', '<', '>', '=', '!', ','], value c = none

def isDecimal (decimals : Decimals) (c : Char) : Bool := (decimals.value c).isSome

def readDigit (decimals : Decimals) (taken : Option Nat) (c : Char) : Option Nat :=
  taken.bind fun total => (decimals.value c).map fun digit => 10 * total + digit

/-- `int(text)` of decimal digits. -/
def readInt (decimals : Decimals) (text : Text) : Option Nat :=
  if text = [] then none else text.foldl (readDigit decimals) (some 0)

def dotted (parts : List Nat) : Text := ['.'].intercalate (parts.map (Nat.toDigits 10))

/-! ### Tokens -/

def isOperator (c : Char) : Bool := c ∈ ['<', '>', '=', '!', '~', '^']

/-- `re.split(r'\s*,\s*|\s+(?=[<>=!~^])', text)`; after a cut the blanks that follow belong to no token. -/
def splitFrom (cut : Bool) (taken : Text) : Text → List Text
  | [] => [taken.reverse]
  | c :: rest =>
      if isSpace c && cut then splitFrom true taken rest
      else if c = ',' then taken.reverse :: splitFrom true [] rest
      else if isSpace c then
        match (rest.dropWhile isSpace).head? with
        | none => splitFrom false (c :: taken) rest
        | some next =>
            if next = ',' then splitFrom false taken rest
            else if isOperator next then taken.reverse :: splitFrom true [] rest
            else splitFrom false (c :: taken) rest
      else splitFrom false (c :: taken) rest

def tokens (text : Text) : List Text := splitFrom false [] text

/-! ### Carets and tildes -/

/-- `re.fullmatch(r'(\d+)(?:\.(\d+))?(?:\.(\d+))?', text)` and its groups as numbers. -/
def readParts (decimals : Decimals) (text : Text) : Option (List Nat) :=
  if (text.splitOn '.').length ≤ 3 then (text.splitOn '.').mapM (readInt decimals) else none

/-- The component that the upper bound changes: the leftmost that is not zero, or the last. -/
def caretIndex (parts : List Nat) : Nat := (parts.findIdx? (· ≠ 0)).getD (parts.length - 1)

/-- The minor component, or the major one when it is alone. -/
def tildeIndex (parts : List Nat) : Nat := min 1 (parts.length - 1)

def upperOf (parts : List Nat) (index : Nat) : List Nat :=
  let upper := parts ++ List.replicate (3 - parts.length) 0
  upper.take index ++ (upper.getD index 0 + 1) :: List.replicate (2 - index) 0

def bounds (parts : List Nat) (index : Nat) : List Text :=
  ['>' :: '=' :: dotted parts, '<' :: dotted (upperOf parts index)]

/-! ### Other tokens -/

def isTail (c : Char) : Bool := c.isAlphanum || c ∈ ['.', '+', '_', '-']

/-- What may follow a component in `\d+(?:\.(?:\d+|\*))*[A-Za-z0-9.+_-]*`; after digits more digits may. -/
def afterComponent (decimals : Decimals) (digits : Bool) : Text → Bool
  | [] => true
  | c :: rest =>
      (c :: rest).all isTail || (digits && isDecimal decimals c && afterComponent decimals true rest) ||
        (c = '.' && match rest with
          | [] => false
          | d :: more => (d = '*' && afterComponent decimals false more) ||
              (isDecimal decimals d && afterComponent decimals true more))

def isVersion (decimals : Decimals) : Text → Bool
  | [] => false
  | c :: rest => isDecimal decimals c && afterComponent decimals true rest

/-! ### Specifiers -/

structure PolicyRejected where
  message : String
deriving DecidableEq

def reject {α : Type} (message : String) : Except PolicyRejected α := .error ⟨"repository inference: " ++ message⟩

/-- The clauses of one token. -/
def clausesOf (decimals : Decimals) (label : String) (value token : Text) : Except PolicyRejected (List Text) :=
  let unsupported := label ++ " has an unsupported compatible version: " ++ String.ofList token
  match token with
  | '^' :: rest =>
      match readParts decimals rest with
      | none => reject unsupported
      | some parts => .ok (bounds parts (caretIndex parts))
  | '~' :: '=' :: rest => .ok ['~' :: '=' :: rest]
  | '~' :: rest =>
      match readParts decimals rest with
      | none => reject unsupported
      | some parts => .ok (bounds parts (tildeIndex parts))
  | '=' :: '=' :: rest => .ok ['=' :: '=' :: rest]
  | '=' :: rest => .ok ['=' :: '=' :: rest]
  | '<' :: rest => .ok ['<' :: rest]
  | '>' :: rest => .ok ['>' :: rest]
  | '!' :: rest => .ok ['!' :: rest]
  | other =>
      if isVersion decimals other then .ok ['=' :: '=' :: other]
      else reject (label ++ " has an unsupported version constraint: " ++ String.ofList value)

/-- The text of a constraint, or none for a value that is no string. -/
def poetrySpec (decimals : Decimals) (value : Option Text) (label : String) : Except PolicyRejected Text :=
  match value with
  | none => reject (label ++ " must be a static version constraint")
  | some value =>
      let value := strip value
      if value = [] || value = ['*'] then .ok []
      else if ['|', '|'] <:+: value ∨ [' ', '-', ' '] <:+: value then
        reject (label ++ " uses an unsupported union/range constraint: " ++ String.ofList value)
      else
        match mapAll (clausesOf decimals label value) (tokens value) with
        | .error failure => .error failure
        | .ok clauses => .ok ([','].intercalate clauses.flatten)

/-! ### What specifiers admit -/

/-- The versions of a package index and the clauses of specifiers. A version sorts by its epoch, then by its
components, which zeros continue, and an early one sorts before the release of its components. -/
structure Specifiers (V : Type) where
  epoch : V → Nat
  component : V → Nat → Nat
  early : V → Prop
  prerelease : V → Prop
  admits : Text → V → Prop

section

variable {V : Type} (specifiers : Specifiers V)

def Below (one two : Nat → Nat) : Prop := ∃ i, (∀ j < i, one j = two j) ∧ one i < two i

def componentOf (parts : List Nat) (i : Nat) : Nat := parts.getD i 0

/-- The version is less than the release of these components. -/
def Specifiers.Precedes (version : V) (parts : List Nat) : Prop :=
  specifiers.epoch version = 0 ∧ (Below (specifiers.component version) (componentOf parts) ∨
    specifiers.component version = componentOf parts ∧ specifiers.early version)

/-- Digits and points that are read as these components. -/
def Writes (decimals : Decimals) (written : Text) (parts : List Nat) : Prop :=
  (∀ c ∈ written, c.isDigit = true ∨ c = '.') ∧ (written.splitOn '.').mapM (readInt decimals) = some parts

/-- The documented meaning of clauses. A clause with several wildcards is no specifier. -/
structure Specifiers.Lawful (decimals : Decimals) : Prop where
  early : ∀ version, specifiers.early version → specifiers.prerelease version
  atLeast : ∀ parts version, parts ≠ [] →
    (specifiers.admits ('>' :: '=' :: dotted parts) version ↔ ¬ specifiers.Precedes version parts)
  below : ∀ parts version, parts ≠ [] → (specifiers.admits ('<' :: dotted parts) version ↔
    specifiers.Precedes version parts ∧ ¬ (specifiers.prerelease version ∧
      specifiers.component version = componentOf parts))
  wildcard : ∀ written parts version, Writes decimals written parts →
    (specifiers.admits ('=' :: '=' :: (written ++ ['.', '*'])) version ↔ specifiers.epoch version = 0 ∧
      ∀ i < parts.length, specifiers.component version i = componentOf parts i)
  several : ∀ text version, 1 < text.count '*' → ¬ specifiers.admits ('=' :: '=' :: text) version

/-- A set of clauses admits what each clause admits, and the empty set everything. -/
def Specifiers.admitsSet (spec : Text) (version : V) : Prop :=
  spec = [] ∨ ∀ clause ∈ spec.splitOn ',', specifiers.admits clause version

/-! ### What constraints denote -/

inductive Comparison where
  | lt | le | gt | ge | eq | ne | compatible | arbitrary

namespace Comparison

def specifier : Comparison → Text
  | lt => ['<']
  | le => ['<', '=']
  | gt => ['>']
  | ge => ['>', '=']
  | eq => ['=', '=']
  | ne => ['!', '=']
  | compatible => ['~', '=']
  | arbitrary => ['=', '=', '=']

/-- Equality is also written with one sign. -/
def notations : Comparison → List Text
  | eq => [['=', '='], ['=']]
  | other => [other.specifier]

end Comparison

inductive Constraint where
  | caret (parts : List Nat)
  | tilde (parts : List Nat)
  | wildcard (parts : List Nat)
  | comparison (operator : Comparison) (version : Text)

/-- A caret lets a component change only after one that is not zero, a tilde only after the minor one. -/
def Constraint.denotes (version : V) : Constraint → Prop
  | .caret parts => ¬ specifiers.Precedes version parts ∧ specifiers.epoch version = 0 ∧
      ∀ i < parts.length, (∀ j < i, componentOf parts j = 0) → specifiers.component version i = componentOf parts i
  | .tilde parts => ¬ specifiers.Precedes version parts ∧ specifiers.epoch version = 0 ∧
      ∀ i < min 2 parts.length, specifiers.component version i = componentOf parts i
  | .wildcard parts => specifiers.epoch version = 0 ∧
      ∀ i < parts.length, specifiers.component version i = componentOf parts i
  | .comparison operator text => specifiers.admits (operator.specifier ++ text) version

end

section

variable (decimals : Decimals)

/-- How constraints are written. -/
inductive Notates : Text → Constraint → Prop where
  | caret {written : Text} {parts : List Nat} (read : (written.splitOn '.').mapM (readInt decimals) = some parts) :
      Notates ('^' :: written) (.caret parts)
  | tilde {written : Text} {parts : List Nat} (read : (written.splitOn '.').mapM (readInt decimals) = some parts) :
      Notates ('~' :: written) (.tilde parts)
  | wildcard {written : Text} {parts : List Nat} (writes : Writes decimals written parts) :
      Notates (written ++ ['.', '*']) (.wildcard parts)
  | comparison {operator : Comparison} {mark version : Text} (known : mark ∈ operator.notations)
      (bare : version.head? ≠ some '=') : Notates (mark ++ version) (.comparison operator version)
  | exact {version : Text} (numbered : ∃ c rest, version = c :: rest ∧ isDecimal decimals c = true)
      (single : '*' ∉ version) : Notates version (.comparison .eq version)

/-- The constraints that a text holds. -/
def Holds (value : Text) (constraints : List Constraint) : Prop :=
  if strip value = [] ∨ strip value = ['*'] then constraints = []
  else List.Forall₂ (Notates decimals) (tokens (strip value)) constraints

end

/-! ### Bounds -/

theorem mapM_length {α β : Type} {f : α → Option β} {items : List α} {values : List β}
    (mapped : items.mapM f = some values) : values.length = items.length := by
  induction items generalizing values with
  | nil =>
      obtain rfl := Option.some.inj mapped
      rfl
  | cons item rest ih =>
      rw [List.mapM_cons] at mapped
      obtain ⟨value, _, mapped⟩ := Option.bind_eq_some_iff.mp mapped
      obtain ⟨others, later, same⟩ := Option.bind_eq_some_iff.mp mapped
      obtain rfl := Option.some.inj same
      rw [List.length_cons, List.length_cons, ih later]

theorem exists_of_mapM {α β : Type} {f : α → Option β} {items : List α} {values : List β}
    (mapped : items.mapM f = some values) : ∀ item ∈ items, ∃ value, f item = some value := by
  induction items generalizing values with
  | nil => simp
  | cons item rest ih =>
      rw [List.mapM_cons] at mapped
      obtain ⟨value, here, mapped⟩ := Option.bind_eq_some_iff.mp mapped
      obtain ⟨others, later, _⟩ := Option.bind_eq_some_iff.mp mapped
      exact List.forall_mem_cons.mpr ⟨⟨value, here⟩, ih later⟩

theorem readParts_spec {decimals : Decimals} {text : Text} {parts : List Nat}
    (read : readParts decimals text = some parts) :
    (text.splitOn '.').mapM (readInt decimals) = some parts ∧ parts ≠ [] ∧ parts.length ≤ 3 := by
  rw [readParts] at read
  split at read
  next short =>
    have length := mapM_length read
    refine ⟨read, ?_, by omega⟩
    rintro rfl
    exact List.splitOn_ne_nil '.' text (List.eq_nil_of_length_eq_zero length.symm)
  next => cases read

theorem componentOf_upperOf {parts : List Nat} {index : Nat} (inside : index < parts.length) (i : Nat) :
    componentOf (upperOf parts index) i =
      if i < index then componentOf parts i else if i = index then componentOf parts index + 1 else 0 := by
  have written : ∀ j ≤ index, (parts ++ List.replicate (3 - parts.length) 0).getD j 0 = componentOf parts j := by
    intro j below
    rw [componentOf, List.getD_append _ _ _ _ (by omega)]
  have count : (List.take index (parts ++ List.replicate (3 - parts.length) 0)).length = index := by
    rw [List.length_take, List.length_append]
    omega
  rw [componentOf, upperOf]
  rcases Nat.lt_trichotomy i index with below | rfl | above
  · rw [if_pos below, List.getD_append _ _ _ _ (by omega), ← written i (le_of_lt below), List.getD_eq_getElem?_getD,
      List.getElem?_take_of_lt below, List.getD_eq_getElem?_getD]
  · rw [if_neg (lt_irrefl _), if_pos rfl, List.getD_append_right _ _ _ _ (by omega), count, Nat.sub_self,
      List.getD_cons_zero, written i le_rfl]
  · rw [if_neg (by omega), if_neg (by omega), List.getD_append_right _ _ _ _ (by omega), count]
    obtain ⟨more, rfl⟩ : ∃ more, i = index + (more + 1) := ⟨i - index - 1, by omega⟩
    rw [Nat.add_sub_cancel_left, List.getD_cons_succ, List.getD_eq_getElem?_getD, List.getElem?_replicate]
    split <;> rfl

theorem upperOf_ne_nil (parts : List Nat) (index : Nat) : upperOf parts index ≠ [] := by
  simp [upperOf]

variable {V : Type} {specifiers : Specifiers V} {decimals : Decimals}

/-- The versions below the upper bound, from the lower one on: those that keep the leading components. -/
theorem bounds_iff (lawful : specifiers.Lawful decimals) {parts : List Nat} {index : Nat}
    (inside : index < parts.length) (version : V) :
    (∀ clause ∈ bounds parts index, specifiers.admits clause version) ↔ ¬ specifiers.Precedes version parts ∧
      specifiers.epoch version = 0 ∧ ∀ i ≤ index, specifiers.component version i = componentOf parts i := by
  have some : parts ≠ [] := by
    rintro rfl
    exact absurd inside (Nat.not_lt_zero _)
  have upper := componentOf_upperOf inside
  rw [bounds, List.forall_mem_cons, List.forall_mem_singleton, lawful.atLeast parts version some,
    lawful.below _ version (upperOf_ne_nil parts index)]
  refine and_congr_right fun least => ?_
  constructor
  · rintro ⟨⟨zero, order⟩, final⟩
    refine ⟨zero, ?_⟩
    have before : ¬ Below (specifiers.component version) (componentOf parts) := fun below => least ⟨zero, .inl below⟩
    rcases order with ⟨place, same, less⟩ | ⟨same, early⟩
    · have kept : ∀ i < min place index, specifiers.component version i = componentOf parts i := by
        intro i below
        rw [same i (by omega), upper, if_pos (by omega)]
      have stays : ¬ specifiers.component version (min place index) < componentOf parts (min place index) :=
        fun smaller => before ⟨_, kept, smaller⟩
      rw [upper] at less
      rcases Nat.lt_trichotomy place index with earlier | rfl | later
      · rw [if_pos earlier] at less
        rw [Nat.min_eq_left (le_of_lt earlier)] at stays
        exact absurd less stays
      · rw [if_neg (lt_irrefl _), if_pos rfl] at less
        rw [Nat.min_self] at stays kept
        intro i below
        rcases Nat.lt_or_eq_of_le below with inner | rfl
        · exact kept i inner
        · omega
      · rw [if_neg (by omega), if_neg (by omega)] at less
        exact absurd less (Nat.not_lt_zero _)
    · exact absurd ⟨lawful.early version early, same⟩ final
  · rintro ⟨zero, same⟩
    have less : Below (specifiers.component version) (componentOf (upperOf parts index)) := by
      refine ⟨index, fun j earlier => ?_, ?_⟩
      · rw [upper, if_pos earlier, same j (le_of_lt earlier)]
      · rw [upper, if_neg (lt_irrefl _), if_pos rfl, same index le_rfl]
        exact Nat.lt_succ_self _
    refine ⟨⟨zero, .inl less⟩, fun final => ?_⟩
    obtain ⟨place, _, less⟩ := less
    rw [final.2] at less
    exact lt_irrefl _ less

theorem caretIndex_spec {parts : List Nat} (some : parts ≠ []) : caretIndex parts < parts.length ∧
    ∀ i, i ≤ caretIndex parts ↔ i < parts.length ∧ ∀ j < i, componentOf parts j = 0 := by
  have filled := List.length_pos_iff.mpr some
  rw [caretIndex]
  cases found : parts.findIdx? (· ≠ 0) with
  | none =>
      have zero : ∀ j, componentOf parts j = 0 := by
        intro j
        rw [componentOf, List.getD_eq_getElem?_getD]
        cases there : parts[j]? with
        | none => rfl
        | some part => simpa using List.findIdx?_eq_none_iff.mp found part (List.mem_of_getElem? there)
      rw [Option.getD_none]
      refine ⟨by omega, fun i => ?_⟩
      constructor
      · exact fun below => ⟨by omega, fun j _ => zero j⟩
      · rintro ⟨below, _⟩
        omega
  | some index =>
      obtain ⟨inside, shown, before⟩ := List.findIdx?_eq_some_iff_getElem.mp found
      have change : componentOf parts index ≠ 0 := by
        rw [componentOf, List.getD_eq_getElem _ _ inside]
        simpa using shown
      have zero : ∀ j < index, componentOf parts j = 0 := by
        intro j below
        rw [componentOf, List.getD_eq_getElem _ _ (by omega)]
        simpa using before j below
      rw [Option.getD_some]
      refine ⟨inside, fun i => ?_⟩
      constructor
      · exact fun below => ⟨by omega, fun j earlier => zero j (by omega)⟩
      · rintro ⟨_, all⟩
        by_contra above
        exact change (all index (by omega))

theorem tildeIndex_spec {parts : List Nat} (some : parts ≠ []) : tildeIndex parts < parts.length ∧
    ∀ i, i ≤ tildeIndex parts ↔ i < min 2 parts.length := by
  have filled := List.length_pos_iff.mpr some
  rw [tildeIndex]
  exact ⟨by omega, fun i => by omega⟩

/-! ### Tokens and their clauses -/

theorem splitFrom_clean {cut : Bool} {taken text : Text} (clean : ',' ∉ taken) :
    ∀ token ∈ splitFrom cut taken text, ',' ∉ token := by
  have blank : isSpace ',' = false := by decide
  fun_induction splitFrom cut taken text with
  | case1 => simpa using clean
  | case2 cut taken c rest _ ih => exact ih clean
  | case3 cut taken rest _ ih => simpa [clean] using ih
  | case4 cut taken c rest _ other _ _ ih => exact ih (by simpa [Ne.symm other] using clean)
  | case5 cut taken c rest _ other _ _ ih => exact ih clean
  | case6 cut taken c rest _ other _ _ _ _ _ ih => simpa [clean] using ih
  | case7 cut taken c rest _ other _ _ _ _ _ ih => exact ih (by simpa [Ne.symm other] using clean)
  | case8 cut taken c rest _ other _ ih => exact ih (by simpa [Ne.symm other] using clean)

theorem dotted_digits (parts : List Nat) : ∀ c ∈ dotted parts, c = '.' ∨ c.isDigit = true := by
  intro c member
  refine (Pieces.mem_intercalate member).imp_right ?_
  rintro ⟨piece, inside, found⟩
  obtain ⟨part, _, rfl⟩ := List.mem_map.mp inside
  exact Nat.isDigit_of_mem_toDigits (by decide) (by decide) found

theorem dotted_clean (parts : List Nat) : ',' ∉ dotted parts := by
  intro member
  rcases dotted_digits parts ',' member with same | digit
  · exact absurd same (by decide)
  · exact absurd digit (by decide)

theorem foldl_readDigit {text : Text} {start : Option Nat} {number : Nat}
    (read : text.foldl (readDigit decimals) start = some number) :
    start ≠ none ∧ ∀ c ∈ text, isDecimal decimals c = true := by
  induction text generalizing start with
  | nil =>
      rw [List.foldl_nil] at read
      simp [read]
  | cons c rest ih =>
      obtain ⟨step, later⟩ := ih read
      obtain ⟨taken, reached⟩ := Option.ne_none_iff_exists'.mp step
      obtain ⟨total, from_start, digit⟩ := Option.bind_eq_some_iff.mp reached
      obtain ⟨value, known, _⟩ := Option.map_eq_some_iff.mp digit
      refine ⟨by simp [from_start], List.forall_mem_cons.mpr ⟨?_, later⟩⟩
      rw [isDecimal, known, Option.isSome_some]

theorem readInt_decimal {text : Text} {number : Nat} (read : readInt decimals text = some number) :
    text ≠ [] ∧ ∀ c ∈ text, isDecimal decimals c = true := by
  rw [readInt] at read
  split at read
  next => cases read
  next filled => exact ⟨filled, (foldl_readDigit read).2⟩

theorem reads_chars {written : Text} {parts : List Nat}
    (read : (written.splitOn '.').mapM (readInt decimals) = some parts) :
    ∀ c ∈ written, c = '.' ∨ isDecimal decimals c = true := by
  intro c member
  have joined : ['.'].intercalate (written.splitOn '.') = written := List.intercalate_splitOn '.'
  rw [← joined] at member
  refine (Pieces.mem_intercalate member).imp_right ?_
  rintro ⟨piece, inside, found⟩
  obtain ⟨number, reads⟩ := exists_of_mapM read piece inside
  exact (readInt_decimal reads).2 c found

theorem clausesOf_version {label : String} {value : Text} {c : Char} (decimal : isDecimal decimals c = true)
    (rest : Text) : clausesOf decimals label value (c :: rest) =
      if isVersion decimals (c :: rest) then .ok ['=' :: '=' :: c :: rest]
      else reject (label ++ " has an unsupported version constraint: " ++ String.ofList value) := by
  have other : ∀ d ∈ ['.', '*', '^', '~', '<', '>', '=', '!', ','], c ≠ d := by
    rintro d member rfl
    rw [isDecimal, decimals.mark c member] at decimal
    cases decimal
  rw [clausesOf]
  all_goals (rintro _ ⟨⟩; exact other _ (by decide) rfl)

theorem readParts_eq {written : Text} {parts found : List Nat}
    (read : (written.splitOn '.').mapM (readInt decimals) = some parts) (accepted : readParts decimals written = some found) :
    found = parts ∧ parts ≠ [] := by
  obtain ⟨same, filled, _⟩ := readParts_spec accepted
  obtain rfl := Option.some.inj (same.symm.trans read)
  exact ⟨rfl, filled⟩

theorem caret_iff (lawful : specifiers.Lawful decimals) {parts : List Nat} (filled : parts ≠ []) (version : V) :
    (∀ clause ∈ bounds parts (caretIndex parts), specifiers.admits clause version) ↔
      (Constraint.caret parts).denotes specifiers version := by
  obtain ⟨inside, kept⟩ := caretIndex_spec filled
  rw [bounds_iff lawful inside, Constraint.denotes]
  simp only [kept, and_imp]

theorem tilde_iff (lawful : specifiers.Lawful decimals) {parts : List Nat} (filled : parts ≠ []) (version : V) :
    (∀ clause ∈ bounds parts (tildeIndex parts), specifiers.admits clause version) ↔
      (Constraint.tilde parts).denotes specifiers version := by
  obtain ⟨inside, kept⟩ := tildeIndex_spec filled
  rw [bounds_iff lawful inside, Constraint.denotes]
  simp only [kept]

theorem version_iff {label : String} {value : Text} {c : Char} (decimal : isDecimal decimals c = true) {rest : Text}
    {clauses : List Text} (accepted : clausesOf decimals label value (c :: rest) = .ok clauses) (version : V) :
    (∀ clause ∈ clauses, specifiers.admits clause version) ↔ specifiers.admits ('=' :: '=' :: c :: rest) version := by
  rw [clausesOf_version decimal] at accepted
  split at accepted
  next =>
    obtain rfl := Except.ok.inj accepted
    rw [List.forall_mem_singleton]
  next => cases accepted

theorem reads_head {written : Text} {parts : List Nat}
    (read : (written.splitOn '.').mapM (readInt decimals) = some parts) :
    ∃ c rest, written = c :: rest ∧ isDecimal decimals c = true := by
  cases written with
  | nil => cases read
  | cons c rest =>
      rcases reads_chars read c List.mem_cons_self with rfl | decimal
      · obtain ⟨number, none⟩ := exists_of_mapM read [] (by simp [List.splitOn, List.splitOnP_cons_eq_if_modifyHead])
        cases none
      · exact ⟨c, rest, rfl, decimal⟩

theorem clausesOf_comparison {label : String} {value mark text : Text} {operator : Comparison}
    (known : mark ∈ operator.notations) (bare : text.head? ≠ some '=') :
    clausesOf decimals label value (mark ++ text) = .ok [operator.specifier ++ text] := by
  have other : ∀ rest, text ≠ '=' :: rest := by
    rintro rest rfl
    exact bare rfl
  cases operator <;> simp only [Comparison.notations, Comparison.specifier, List.mem_cons, List.not_mem_nil, or_false] at known
  case eq =>
    rcases known with rfl | rfl
    · rfl
    · rw [List.singleton_append, clausesOf]
      · rfl
      · exact other
  all_goals
    subst known
    rfl

/-- The clauses of a token admit what its constraint denotes. -/
theorem clausesOf_sound (lawful : specifiers.Lawful decimals) {label : String} {value token : Text}
    {clauses : List Text} (accepted : clausesOf decimals label value token = .ok clauses) {constraint : Constraint}
    (notates : Notates decimals token constraint) (version : V) :
    (∀ clause ∈ clauses, specifiers.admits clause version) ↔ constraint.denotes specifiers version := by
  cases notates with
  | caret read =>
      rw [clausesOf] at accepted
      split at accepted
      next => cases accepted
      next found reads =>
        obtain ⟨rfl, filled⟩ := readParts_eq read reads
        obtain rfl := Except.ok.inj accepted
        exact caret_iff lawful filled version
  | @tilde written parts read =>
      have other : ∀ rest, written ≠ '=' :: rest := by
        rintro rest rfl
        rcases reads_chars read '=' List.mem_cons_self with same | decimal
        · exact absurd same (by decide)
        · rw [isDecimal, decimals.mark '=' (by decide)] at decimal
          cases decimal
      rw [clausesOf] at accepted
      · split at accepted
        next => cases accepted
        next found reads =>
          obtain ⟨rfl, filled⟩ := readParts_eq read reads
          obtain rfl := Except.ok.inj accepted
          exact tilde_iff lawful filled version
      · exact other
  | @wildcard written parts writes =>
      obtain ⟨c, rest, rfl, decimal⟩ := reads_head writes.2
      exact (version_iff decimal accepted version).trans (lawful.wildcard _ _ version writes)
  | @comparison operator mark text known bare =>
      rw [clausesOf_comparison known bare] at accepted
      obtain rfl := Except.ok.inj accepted
      rw [List.forall_mem_singleton, Constraint.denotes]
  | @exact text numbered single =>
      obtain ⟨c, rest, rfl, decimal⟩ := numbered
      exact version_iff decimal accepted version

theorem clausesOf_clean {label : String} {value token : Text} {clauses : List Text} (clean : ',' ∉ token)
    (accepted : clausesOf decimals label value token = .ok clauses) :
    clauses ≠ [] ∧ ∀ clause ∈ clauses, clause ≠ [] ∧ ',' ∉ clause := by
  have bounded : ∀ parts index, bounds parts index ≠ [] ∧ ∀ clause ∈ bounds parts index, clause ≠ [] ∧ ',' ∉ clause := by
    intro parts index
    refine ⟨List.cons_ne_nil _ _, List.forall_mem_cons.mpr ⟨⟨List.cons_ne_nil _ _, ?_⟩, List.forall_mem_singleton.mpr
      ⟨List.cons_ne_nil _ _, ?_⟩⟩⟩
    · simpa using dotted_clean parts
    · simpa using dotted_clean (upperOf parts index)
  have single : ∀ text, text ≠ [] → ',' ∉ text →
      [text] ≠ [] ∧ ∀ clause ∈ [text], clause ≠ [] ∧ ',' ∉ clause := by
    intro text filled clean
    exact ⟨List.cons_ne_nil _ _, List.forall_mem_singleton.mpr ⟨filled, clean⟩⟩
  rw [clausesOf.eq_def] at accepted
  simp only at accepted
  split at accepted
  next rest =>
    split at accepted
    next => cases accepted
    next parts _ =>
      obtain rfl := Except.ok.inj accepted
      exact bounded parts _
  next rest =>
    obtain rfl := Except.ok.inj accepted
    exact single _ (List.cons_ne_nil _ _) clean
  next rest _ =>
    split at accepted
    next => cases accepted
    next parts _ =>
      obtain rfl := Except.ok.inj accepted
      exact bounded parts _
  next =>
    obtain rfl := Except.ok.inj accepted
    exact single _ (List.cons_ne_nil _ _) clean
  next =>
    obtain rfl := Except.ok.inj accepted
    exact single _ (List.cons_ne_nil _ _) (by simpa using clean)
  next =>
    obtain rfl := Except.ok.inj accepted
    exact single _ (List.cons_ne_nil _ _) clean
  next =>
    obtain rfl := Except.ok.inj accepted
    exact single _ (List.cons_ne_nil _ _) clean
  next =>
    obtain rfl := Except.ok.inj accepted
    exact single _ (List.cons_ne_nil _ _) clean
  next =>
    split at accepted
    next =>
      obtain rfl := Except.ok.inj accepted
      exact single _ (List.cons_ne_nil _ _) (by simpa using clean)
    next => cases accepted

theorem splitFrom_ne_nil (cut : Bool) (taken text : Text) : splitFrom cut taken text ≠ [] := by
  fun_induction splitFrom cut taken text <;> simp_all

theorem splitOn_clauses {clauses : List Text} (some : clauses ≠ []) (clean : ∀ clause ∈ clauses, clause ≠ [] ∧ ',' ∉ clause) :
    [','].intercalate clauses ≠ [] ∧ ([','].intercalate clauses).splitOn ',' = clauses := by
  have split := List.splitOn_intercalate ',' (fun clause member => (clean clause member).2) some
  refine ⟨fun empty => ?_, split⟩
  rw [empty, List.splitOn_nil] at split
  exact (clean [] (split ▸ List.mem_singleton_self _)).1 rfl

theorem admits_flatten {tokens : List Text} {constraints : List Constraint} {clauses : List (List Text)}
    (lawful : specifiers.Lawful decimals) {label : String} {value : Text}
    (accepted : List.Forall₂ (fun token clauses => clausesOf decimals label value token = .ok clauses) tokens clauses)
    (notates : List.Forall₂ (Notates decimals) tokens constraints) (version : V) :
    (∀ clause ∈ clauses.flatten, specifiers.admits clause version) ↔
      ∀ constraint ∈ constraints, constraint.denotes specifiers version := by
  induction accepted generalizing constraints with
  | nil =>
      cases notates
      simp
  | cons here _ ih =>
      obtain _ | ⟨first, later⟩ := notates
      rw [List.flatten_cons, List.forall_mem_append, List.forall_mem_cons, clausesOf_sound lawful here first version,
        ih later]

/-- The specifier of an accepted text admits exactly the versions that all its constraints denote. -/
theorem poetrySpec_sound (lawful : specifiers.Lawful decimals) {value spec : Text} {label : String}
    (accepted : poetrySpec decimals (some value) label = .ok spec) {constraints : List Constraint}
    (held : Holds decimals value constraints) (version : V) :
    specifiers.admitsSet spec version ↔ ∀ constraint ∈ constraints, constraint.denotes specifiers version := by
  rw [Holds] at held
  rw [poetrySpec] at accepted
  simp only [Bool.or_eq_true, decide_eq_true_eq] at accepted
  split at accepted
  next free =>
    obtain rfl := Except.ok.inj accepted
    rw [if_pos free] at held
    subst held
    exact iff_of_true (.inl rfl) (by simp)
  next bound =>
    rw [if_neg bound] at held
    split at accepted
    next => cases accepted
    next =>
      split at accepted
      next => cases accepted
      next clauses mapped =>
        obtain rfl := Except.ok.inj accepted
        have each := forall₂_of_mapAll mapped
        have parts : ∀ part ∈ clauses, part ≠ [] ∧ ∀ clause ∈ part, clause ≠ [] ∧ ',' ∉ clause := by
          intro part member
          obtain ⟨token, inside, same⟩ := forall_of_forall₂ each part member
          exact clausesOf_clean (splitFrom_clean (by simp) token inside) same
        have some : clauses.flatten ≠ [] := by
          cases clauses with
          | nil => exact absurd (List.forall₂_nil_right_iff.mp each) (splitFrom_ne_nil false [] (strip value))
          | cons part rest =>
              rw [List.flatten_cons]
              exact List.append_ne_nil_of_left_ne_nil (parts part List.mem_cons_self).1 _
        have clean : ∀ clause ∈ clauses.flatten, clause ≠ [] ∧ ',' ∉ clause := by
          intro clause member
          obtain ⟨part, inside, found⟩ := List.mem_flatten.mp member
          exact (parts part inside).2 clause found
        obtain ⟨filled, split⟩ := splitOn_clauses some clean
        rw [Specifiers.admitsSet, or_iff_right filled, split]
        exact admits_flatten lawful each held version

namespace Sample

/-- The digits of ASCII. -/
def ascii : Decimals where
  value c := if c.isDigit then some (c.toNat - '0'.toNat) else none
  small c d known := by
    split at known
    next digit =>
      obtain rfl := Option.some.inj known
      have := Char.isDigit_iff_toNat.mp digit
      have zero : '0'.toNat = 48 := rfl
      have nine : '9'.toNat = 57 := rfl
      omega
    next => cases known
  ascii c digit := by rw [if_pos digit]
  mark c member := by
    simp only [List.mem_cons, List.not_mem_nil, or_false] at member
    rcases member with rfl | rfl | rfl | rfl | rfl | rfl | rfl | rfl | rfl <;> rfl

/-- An index of final releases. -/
def releases : Specifiers (List Nat) where
  epoch _ := 0
  component := componentOf
  early _ := False
  prerelease _ := False
  admits text version :=
    (∃ parts, text = '>' :: '=' :: dotted parts ∧ parts ≠ [] ∧ ¬ Below (componentOf version) (componentOf parts)) ∨
      (∃ parts, text = '<' :: dotted parts ∧ parts ≠ [] ∧ Below (componentOf version) (componentOf parts)) ∨
      ∃ written parts, text = '=' :: '=' :: (written ++ ['.', '*']) ∧ Writes ascii written parts ∧
        ∀ i < parts.length, componentOf version i = componentOf parts i

theorem dotted_injective {first second : List Nat} (some : first ≠ []) (more : second ≠ [])
    (same : dotted first = dotted second) : first = second := by
  have point : ∀ parts : List Nat, ∀ piece ∈ parts.map (Nat.toDigits 10), '.' ∉ piece := by
    intro parts piece member inside
    obtain ⟨part, _, rfl⟩ := List.mem_map.mp member
    exact absurd (Nat.isDigit_of_mem_toDigits (by decide) (by decide) inside) (by decide)
  have left := List.splitOn_intercalate '.' (point first) (by simpa using some)
  have right := List.splitOn_intercalate '.' (point second) (by simpa using more)
  rw [dotted, dotted] at same
  rw [same, right] at left
  have injective : Function.Injective (Nat.toDigits 10) :=
    Function.LeftInverse.injective fun count => Nat.ofDigitChars_toDigits (by decide) (by decide)
  exact (List.map_injective_iff.mpr injective left).symm

theorem precedes_iff (version parts : List Nat) :
    releases.Precedes version parts ↔ Below (componentOf version) (componentOf parts) := by
  simp [Specifiers.Precedes, releases]

theorem lawful : releases.Lawful ascii where
  early _ none := none
  atLeast parts version some := by
    rw [precedes_iff]
    constructor
    · rintro (⟨others, same, more, order⟩ | ⟨others, same, _⟩ | ⟨written, others, same, _⟩)
      · rwa [dotted_injective some more (List.cons.inj (List.cons.inj same).2).2]
      · cases same
      · cases same
    · exact fun order => .inl ⟨parts, rfl, some, order⟩
  below parts version some := by
    rw [precedes_iff, and_iff_left (fun final => final.1)]
    constructor
    · rintro (⟨others, same, _⟩ | ⟨others, same, more, order⟩ | ⟨written, others, same, _⟩)
      · cases same
      · rwa [dotted_injective some more (List.cons.inj same).2]
      · cases same
    · exact fun order => .inr (.inl ⟨parts, rfl, some, order⟩)
  wildcard written parts version writes := by
    constructor
    · rintro (⟨others, same, _⟩ | ⟨others, same, _⟩ | ⟨other, others, same, again, kept⟩)
      · cases same
      · cases same
      · obtain rfl := List.append_cancel_right (List.cons.inj (List.cons.inj same).2).2
        obtain rfl := Option.some.inj (writes.2.symm.trans again.2)
        exact ⟨rfl, kept⟩
    · exact fun ⟨_, kept⟩ => .inr (.inr ⟨written, parts, rfl, writes, kept⟩)
  several text version stars := by
    rintro (⟨others, same, _⟩ | ⟨others, same, _⟩ | ⟨written, others, same, writes, _⟩)
    · cases same
    · cases same
    · obtain rfl := (List.cons.inj (List.cons.inj same).2).2
      have none : written.count '*' = 0 := by
        rw [List.count_eq_zero]
        intro member
        rcases writes.1 '*' member with digit | point
        · exact absurd digit (by decide)
        · exact absurd point (by decide)
      rw [List.count_append, none] at stars
      exact absurd stars (by decide)

theorem accepted : poetrySpec ascii (some "^0.2".toList) "python" = .ok ">=0.2,<0.3.0".toList := by
  decide +kernel

theorem held : Holds ascii "^0.2".toList [.caret [0, 2]] :=
  List.Forall₂.cons (.caret rfl) .nil

end Sample

theorem poetrySpec_sound_sample : Sample.releases.admitsSet ">=0.2,<0.3.0".toList [0, 2, 5] ↔
    ∀ constraint ∈ [Constraint.caret [0, 2]], constraint.denotes Sample.releases [0, 2, 5] :=
  poetrySpec_sound Sample.lawful Sample.accepted Sample.held [0, 2, 5]

/-- A text with two wildcards is accepted, and what it becomes is no specifier. -/
theorem wildcards_refused : poetrySpec Sample.ascii (some "1.*.*".toList) "python" = .ok "==1.*.*".toList ∧
    (Constraint.wildcard [1]).denotes Sample.releases [1, 5] ∧
    ¬ Sample.releases.admitsSet "==1.*.*".toList [1, 5] := by
  refine ⟨by decide +kernel, ⟨rfl, by decide⟩, ?_⟩
  rintro (empty | all)
  · exact absurd empty (by decide)
  · exact Sample.lawful.several "1.*.*".toList [1, 5] (by decide) (all "==1.*.*".toList (by decide))

end PoetrySpec

end FeatureRl
