import FeatureRl.Lib.Toml

/-! Lines of TOML that are written with JSON strings are read back unless a string holds a delete character. -/

namespace Toml

open Json (renderString escapeChar prepend)
open NumberLiteral (Terminated)

/-! ### Writing -/

mutual

def write : Json → List Char
  | .bool true => ['t', 'r', 'u', 'e']
  | .bool false => ['f', 'a', 'l', 's', 'e']
  | .int value => (NumberLiteral.ofInt value).render
  | .float value => (NumberLiteral.ofBinary64 value).render
  | .str text => renderString text
  | .arr [] => ['[', ']']
  | .arr (item :: rest) => '[' :: (write item ++ writeRest rest)
  | _ => []

def writeRest : List Json → List Char
  | [] => [']']
  | item :: rest => ',' :: ' ' :: (write item ++ writeRest rest)

end

def writeDotted : List String → List Char
  | [] => []
  | key :: rest => '.' :: (renderString key ++ writeDotted rest)

def writeKeys : List String → List Char
  | [] => []
  | key :: rest => renderString key ++ writeDotted rest

def Line.write : Line → List Char
  | .header path => '[' :: (writeKeys path ++ [']'])
  | .element path => '[' :: '[' :: (writeKeys path ++ [']', ']'])
  | .entry key value => renderString key ++ ' ' :: '=' :: ' ' :: Toml.write value

mutual

/-- A value that is written on the line of its key. -/
def isInline : Json → Bool
  | .null | .obj _ => false
  | .arr items => areInline items
  | _ => true

def areInline : List Json → Bool
  | [] => true
  | item :: rest => isInline item && areInline rest

end

/-- The text has no delete character. -/
def isPlain (text : String) : Bool := text.toList.all fun c => c.toNat != 127

mutual

/-- No string and no key inside the value has a delete character. -/
def plainValue : Json → Bool
  | .str text => isPlain text
  | .arr items => plainValues items
  | .obj members => plainMembers members
  | _ => true

def plainValues : List Json → Bool
  | [] => true
  | item :: rest => plainValue item && plainValues rest

def plainMembers : Json.Members → Bool
  | [] => true
  | (key, value) :: rest => isPlain key && plainValue value && plainMembers rest

end

def Line.plain : Line → Bool
  | .header path | .element path => path.all isPlain
  | .entry key value => isPlain key && plainValue value

def Line.formed : Line → Bool
  | .header path | .element path => decide (path ≠ [])
  | .entry _ value => isInline value

/-! ### Strings -/

theorem prepend_none (c : Char) : prepend c none = none := rfl

theorem readBasic_self {c : Char} (notQuote : c ≠ '"') (notSlash : c ≠ '\\') (printable : ¬ c.toNat < 32)
    (text : List Char) :
    readBasic (c :: text) = if c.toNat = 127 then none else prepend c (readBasic text) := by
  rw [readBasic]
  · by_cases deletes : c.toNat = 127
    · have tab : c ≠ '\t' := by
        rintro rfl
        exact absurd deletes (by decide)
      simp [notQuote, isBasic, deletes, tab]
    · have visible : 32 ≤ c.toNat := by omega
      simp [notQuote, notSlash, isBasic, deletes, visible]
  · exact fun _ _ _ _ _ same => absurd same notSlash
  · exact fun _ _ same => absurd same notSlash

/-- Only a delete character is refused where JSON left it as it was. -/
theorem readBasic_escapeChar (c : Char) (text : List Char) :
    readBasic (escapeChar c ++ text) = if c.toNat = 127 then none else prepend c (readBasic text) := by
  by_cases small : c.toNat < 32 ∨ c = '"' ∨ c = '\\'
  · have kept : c.toNat ≠ 127 := by
      rcases small with control | rfl | rfl
      · omega
      · decide
      · decide
    rw [if_neg kept]
    simp only [escapeChar]
    split_ifs with quote slash feed back tab form bell control
    · subst quote; simp [readBasic, unescape]
    · subst slash; simp [readBasic, unescape]
    · subst feed; simp [readBasic, unescape]
    · subst back; simp [readBasic, unescape]
    · subst tab; simp [readBasic, unescape]
    · have same : c = Char.ofNat 12 := by rw [← form, Char.ofNat_toNat]
      simp [readBasic, unescape, same]
    · have same : c = Char.ofNat 8 := by rw [← bell, Char.ofNat_toNat]
      simp [readBasic, unescape, same]
    · have valid : c.toNat.isValidChar := c.valid
      simp only [List.cons_append, List.nil_append, readBasic, Json.hexCode_control _ control, valid, ↓reduceIte,
        Char.ofNat_toNat]
    · rcases small with control' | quote' | slash'
      · exact absurd control' control
      · exact absurd quote' quote
      · exact absurd slash' slash
  · rw [not_or, not_or] at small
    obtain ⟨printable, notQuote, notSlash⟩ := small
    have same : escapeChar c = [c] := by
      have feed : c ≠ '\n' := by rintro rfl; exact printable (by decide)
      have back : c ≠ '\r' := by rintro rfl; exact printable (by decide)
      have tab : c ≠ '\t' := by rintro rfl; exact printable (by decide)
      rw [escapeChar, if_neg notQuote, if_neg notSlash, if_neg feed, if_neg back, if_neg tab,
        if_neg (by omega), if_neg (by omega), if_neg printable]
    rw [same]
    exact readBasic_self notQuote notSlash printable text

theorem readBasic_escaped (text rest : List Char) : readBasic (text.flatMap escapeChar ++ '"' :: rest) =
    if text.all (fun c => c.toNat != 127) then some (text, rest) else none := by
  induction text with
  | nil => simp [readBasic]
  | cons c text ih =>
      rw [List.flatMap_cons, List.append_assoc, readBasic_escapeChar, ih]
      by_cases deletes : c.toNat = 127
      · simp [deletes]
      · by_cases plain : text.all (fun c => c.toNat != 127) = true
        · simp [deletes, plain, Json.prepend_some]
        · simp [deletes, plain, prepend_none]

theorem readBasic_text (text : String) (rest : List Char) :
    readBasic (text.toList.flatMap escapeChar ++ ['"'] ++ rest) =
      if isPlain text then some (text.toList, rest) else none := by
  rw [List.append_assoc]
  exact readBasic_escaped text.toList rest

/-! ### Keys -/

theorem skipBlank_cons {c : Char} (solid : isBlank c = false) (rest : List Char) :
    skipBlank (c :: rest) = c :: rest := by simp [skipBlank, solid]

theorem readKeys_write (key : String) (keys : List String) (rest : List Char) (fuel : Nat)
    (enough : keys.length < fuel) :
    readKeys fuel (renderString key ++ (writeDotted keys ++ ']' :: rest)) =
      if (key :: keys).all isPlain then some (key :: keys, ']' :: rest) else none := by
  induction keys generalizing key fuel with
  | nil =>
      obtain ⟨fuel, rfl⟩ : ∃ less, fuel = less + 1 := ⟨fuel - 1, by simp at enough; omega⟩
      simp only [renderString, writeDotted, List.cons_append, readKeys, ↓reduceIte, readBasic_text,
        List.nil_append]
      by_cases plain : isPlain key = true
      · simp [plain, skipBlank_cons (show isBlank ']' = false from rfl)]
      · simp [plain]
  | cons next keys ih =>
      obtain ⟨fuel, rfl⟩ : ∃ less, fuel = less + 1 := ⟨fuel - 1, by simp at enough; omega⟩
      have tail := ih next fuel (by simpa using enough)
      have opened : skipBlank (renderString next ++ (writeDotted keys ++ ']' :: rest)) =
          renderString next ++ (writeDotted keys ++ ']' :: rest) := rfl
      simp only [renderString, writeDotted, List.cons_append, readKeys, ↓reduceIte, readBasic_text]
      by_cases plain : isPlain key = true
      · simp only [plain, ↓reduceIte, Option.bind_eq_bind, Option.bind_some,
          skipBlank_cons (show isBlank '.' = false from rfl), List.cons_append, List.nil_append, List.append_assoc]
        simp only [renderString, List.cons_append, List.nil_append, List.append_assoc] at opened tail
        rw [opened, tail]
        by_cases others : (next :: keys).all isPlain = true
        · simp [plain, others]
        · simp [plain, others]
      · simp [plain]

/-! ### Values -/

/-- How a written value may start: not with a blank or a closing bracket. -/
def Opening (c : Char) : Prop := isBlank c = false ∧ c ≠ ']'

theorem opening_of_digit {c : Char} (found : c = '-' ∨ c.isDigit = true) : Opening c := by
  obtain ⟨solid, closing, _⟩ := Json.opening_of_digit found
  simp only [Json.isSpace, Bool.or_eq_false_iff] at solid
  exact ⟨by simp [isBlank, solid.1.1.1, solid.1.1.2], closing⟩

theorem literal_opening {literal : NumberLiteral} (formed : literal.WellFormed) :
    ∃ c rest, literal.render = c :: rest ∧ Opening c := by
  obtain ⟨c, rest, split⟩ := List.exists_cons_of_ne_nil (NumberLiteral.render_ne_nil formed)
  exact ⟨c, rest, split, opening_of_digit (NumberLiteral.head_render formed (by simp [split]))⟩

theorem write_opening {value : Json} (inline : isInline value = true) :
    ∃ c rest, write value = c :: rest ∧ Opening c := by
  cases value with
  | null => cases inline
  | bool value => cases value <;> exact ⟨_, _, rfl, rfl, by decide⟩
  | int value => exact literal_opening (NumberLiteral.wellFormed_ofInt value)
  | float value => exact literal_opening (NumberLiteral.wellFormed_ofBinary64 value)
  | str text => exact ⟨_, _, rfl, rfl, by decide⟩
  | arr items => cases items <;> exact ⟨_, _, rfl, rfl, by decide⟩
  | obj members => cases inline

theorem skipBlank_write {value : Json} (inline : isInline value = true) (rest : List Char) :
    skipBlank (write value ++ rest) = write value ++ rest := by
  obtain ⟨c, others, split, opening⟩ := write_opening inline
  rw [split, List.cons_append, skipBlank_cons opening.1]

theorem readValue_digit {c : Char} (found : c = '-' ∨ c.isDigit = true) (fuel : Nat) (rest : List Char) :
    readValue (fuel + 1) (c :: rest) = Json.parseNumber (c :: rest) := by
  have clash (other : Char) (plain : ¬ (other = '-' ∨ other.isDigit = true)) : c ≠ other := by
    rintro rfl
    exact plain found
  rw [readValue]
  simp [clash '"' (by decide), clash '[' (by decide), clash 't' (by decide), clash 'f' (by decide)]

theorem readValue_literal {literal : NumberLiteral} (formed : literal.WellFormed) (fuel : Nat)
    (rest : List Char) :
    readValue (fuel + 1) (literal.render ++ rest) = Json.parseNumber (literal.render ++ rest) := by
  obtain ⟨c, others, split⟩ := List.exists_cons_of_ne_nil (NumberLiteral.render_ne_nil formed)
  have first : c = '-' ∨ c.isDigit = true := NumberLiteral.head_render formed (by simp [split])
  rw [split, List.cons_append]
  exact readValue_digit first fuel _

theorem readValue_array (fuel : Nat) {item : Json} (inline : isInline item = true) (text : List Char) :
    readValue (fuel + 1) ('[' :: (write item ++ text)) =
      (readItems fuel (write item ++ text)).map fun (items, after) => (.arr items, after) := by
  obtain ⟨c, others, split, opening⟩ := write_opening inline
  have skipped : skipBlank (c :: (others ++ text)) = c :: (others ++ text) := skipBlank_cons opening.1 _
  rw [readValue, split, List.cons_append, if_neg (by decide), if_pos rfl]
  simp only [skipped]
  split
  next after same => exact absurd (List.cons.inj same).1 opening.2
  next => cases readItems fuel (c :: (others ++ text)) <;> rfl

theorem terminated_writeRest (items : List Json) (rest : List Char) : Terminated (writeRest items ++ rest) := by
  cases items <;> exact Json.terminated_of_head (by decide) _

mutual

/-- The fuel covers two calls for each character. -/
theorem readValue_write : ∀ (value : Json) (fuel : Nat) (rest : List Char),
    isInline value = true → Terminated rest → 2 * (write value ++ rest).length ≤ fuel →
    readValue fuel (write value ++ rest) = if plainValue value then some (value, rest) else none
  | .bool true, fuel, rest, _, _, enough => by
      obtain ⟨fuel, rfl⟩ : ∃ less, fuel = less + 1 := ⟨fuel - 1, by simp [write] at enough; omega⟩
      simp [write, readValue, Json.stripPrefix, plainValue]
  | .bool false, fuel, rest, _, _, enough => by
      obtain ⟨fuel, rfl⟩ : ∃ less, fuel = less + 1 := ⟨fuel - 1, by simp [write] at enough; omega⟩
      simp [write, readValue, Json.stripPrefix, plainValue]
  | .int value, fuel, rest, _, stop, enough => by
      have formed := NumberLiteral.wellFormed_ofInt value
      have size := List.length_pos_of_ne_nil (NumberLiteral.render_ne_nil formed)
      simp only [write, List.length_append] at enough ⊢
      obtain ⟨fuel, rfl⟩ : ∃ less, fuel = less + 1 := ⟨fuel - 1, by omega⟩
      rw [readValue_literal formed, Json.parseNumber_ofInt value stop]
      simp [plainValue]
  | .float value, fuel, rest, _, stop, enough => by
      have formed := NumberLiteral.wellFormed_ofBinary64 value
      have size := List.length_pos_of_ne_nil (NumberLiteral.render_ne_nil formed)
      simp only [write, List.length_append] at enough ⊢
      obtain ⟨fuel, rfl⟩ : ∃ less, fuel = less + 1 := ⟨fuel - 1, by omega⟩
      rw [readValue_literal formed, Json.parseNumber_ofBinary64 value stop]
      simp [plainValue]
  | .str text, fuel, rest, _, _, enough => by
      simp only [write, renderString, List.cons_append, List.length_cons] at enough ⊢
      obtain ⟨fuel, rfl⟩ : ∃ less, fuel = less + 1 := ⟨fuel - 1, by omega⟩
      rw [readValue, if_pos rfl, readBasic_text]
      by_cases plain : isPlain text = true
      · simp [plain, plainValue, String.ofList_toList]
      · simp [plain, plainValue]
  | .arr [], fuel, rest, _, _, enough => by
      obtain ⟨fuel, rfl⟩ : ∃ less, fuel = less + 1 := ⟨fuel - 1, by simp [write] at enough; omega⟩
      simp [write, readValue, skipBlank, isBlank, plainValue, plainValues]
  | .arr (item :: items), fuel, rest, inline, _, enough => by
      simp only [isInline, areInline, Bool.and_eq_true] at inline
      simp only [write, List.cons_append, List.append_assoc, List.length_cons] at enough ⊢
      obtain ⟨fuel, rfl⟩ : ∃ less, fuel = less + 1 := ⟨fuel - 1, by omega⟩
      rw [readValue_array fuel inline.1, readItems_write item items fuel rest inline.1 inline.2 (by omega),
        plainValue]
      by_cases plain : plainValues (item :: items) = true
      · simp [plain]
      · simp [plain]
  | .null, _, _, inline, _, _ => by cases inline
  | .obj _, _, _, inline, _, _ => by cases inline
termination_by _ fuel => fuel

theorem readItems_write : ∀ (item : Json) (items : List Json) (fuel : Nat) (rest : List Char),
    isInline item = true → areInline items = true →
    2 * (write item ++ (writeRest items ++ rest)).length + 1 ≤ fuel →
    readItems fuel (write item ++ (writeRest items ++ rest)) =
      if plainValues (item :: items) then some (item :: items, rest) else none
  | item, [], fuel, rest, inline, _, enough => by
      obtain ⟨fuel, rfl⟩ : ∃ less, fuel = less + 1 := ⟨fuel - 1, by omega⟩
      have read := readValue_write item fuel (writeRest [] ++ rest) inline (terminated_writeRest [] rest) (by omega)
      rw [readItems, read]
      by_cases plain : plainValue item = true
      · simp [plain, plainValues, writeRest, skipBlank, isBlank]
      · simp [plain, plainValues]
  | item, next :: items, fuel, rest, inline, others, enough => by
      simp only [areInline, Bool.and_eq_true] at others
      obtain ⟨fuel, rfl⟩ : ∃ less, fuel = less + 1 := ⟨fuel - 1, by omega⟩
      have read := readValue_write item fuel (writeRest (next :: items) ++ rest) inline
        (terminated_writeRest _ rest) (by omega)
      have tail := readItems_write next items fuel rest others.1 others.2 (by
        simp only [writeRest, List.length_append, List.length_cons] at enough ⊢
        omega)
      have blank : ∀ text, skipBlank (' ' :: text) = skipBlank text := fun _ => rfl
      rw [readItems, read]
      by_cases plain : plainValue item = true
      · simp only [plain, ↓reduceIte, writeRest, List.cons_append, List.append_assoc, blank,
          skipBlank_write others.1, skipBlank_cons (show isBlank ',' = false from rfl), Option.bind_eq_bind, Option.bind_some, tail]
        by_cases later : plainValues (next :: items) = true
        · rw [if_pos later]
          simp only [plainValues, Bool.and_eq_true] at later ⊢
          simp [plain, later]
        · rw [if_neg later]
          simp only [plainValues] at later ⊢
          simp [plain, later]
      · simp [plain, plainValues]
termination_by _ _ fuel => fuel

end

/-! ### Lines -/

theorem length_writeDotted (keys : List String) : keys.length ≤ (writeDotted keys).length := by
  induction keys with
  | nil => exact Nat.le_refl 0
  | cons key rest ih =>
      simp only [writeDotted, List.length_cons, List.length_append]
      omega

/-- The path in a header is read up to the bracket. -/
theorem readKeys_path (key : String) (keys : List String) (rest : List Char) :
    readKeys (renderString key ++ (writeDotted keys ++ ']' :: rest)).length
      (skipBlank (renderString key ++ (writeDotted keys ++ ']' :: rest))) =
      if (key :: keys).all isPlain then some (key :: keys, ']' :: rest) else none := by
  have opened : skipBlank (renderString key ++ (writeDotted keys ++ ']' :: rest)) =
      renderString key ++ (writeDotted keys ++ ']' :: rest) := rfl
  have dotted := length_writeDotted keys
  rw [opened, readKeys_write]
  simp only [List.length_append, List.length_cons]
  omega

theorem readLine_header (text : List Char) :
    readLine ('[' :: '"' :: text) = (do
      let (path, after) ← readKeys ('"' :: text).length (skipBlank ('"' :: text))
      match after with
      | ']' :: last => if skipBlank last = [] then some (some (.header path)) else none
      | _ => none) := rfl

theorem readLine_element (text : List Char) :
    readLine ('[' :: '[' :: text) = (do
      let (path, after) ← readKeys text.length (skipBlank text)
      match after with
      | ']' :: ']' :: last => if skipBlank last = [] then some (some (.element path)) else none
      | _ => none) := rfl

theorem readLine_entry (text : List Char) :
    readLine ('"' :: text) = (do
      let (key, after) ← readBasic text
      match skipBlank after with
      | '=' :: more =>
          let (value, last) ← readValue (2 * more.length) (skipBlank more)
          if skipBlank last = [] then some (some (.entry (String.ofList key) value)) else none
      | _ => none) := rfl

theorem renderString_cons (text : String) :
    renderString text = '"' :: (text.toList.flatMap escapeChar ++ ['"']) := rfl

/-- A written line is read back unless a string on it holds a delete character. -/
theorem readLine_write {line : Line} (formed : line.formed = true) :
    readLine line.write = if line.plain then some (some line) else none := by
  cases line with
  | header path =>
      cases path with
      | nil => cases formed
      | cons key keys =>
          have read := readKeys_path key keys []
          simp only [renderString_cons, List.cons_append] at read
          simp only [Line.write, writeKeys, renderString_cons, List.cons_append, List.append_assoc] at read ⊢
          rw [readLine_header, read, Line.plain]
          by_cases plain : (key :: keys).all isPlain = true
          · simp [plain, skipBlank]
          · simp [plain]
  | element path =>
      cases path with
      | nil => cases formed
      | cons key keys =>
          have read := readKeys_path key keys [']']
          simp only [renderString_cons, List.cons_append] at read
          simp only [Line.write, writeKeys, renderString_cons, List.cons_append, List.append_assoc] at read ⊢
          rw [readLine_element, read, Line.plain]
          by_cases plain : (key :: keys).all isPlain = true
          · simp [plain, skipBlank]
          · simp [plain]
  | entry key value =>
      have inline : isInline value = true := formed
      have stop : Terminated [] := by
        intro c found
        cases found
      have read := readValue_write value (2 * (' ' :: write value).length) [] inline stop (by
        simp only [List.append_nil, List.length_cons]
        omega)
      rw [List.append_nil] at read
      have opened : skipBlank (' ' :: write value) = write value := by
        have written := skipBlank_write inline []
        rw [List.append_nil] at written
        rw [skipBlank, if_pos (by decide), written]
      have blank : ∀ text, skipBlank (' ' :: '=' :: text) = '=' :: text := fun _ => rfl
      simp only [Line.write, renderString_cons, List.cons_append]
      rw [readLine_entry, readBasic_text, Line.plain]
      by_cases plain : isPlain key = true
      · simp only [plain, ↓reduceIte, Option.bind_eq_bind, Option.bind_some, blank, opened, read]
        by_cases clean : plainValue value = true
        · simp [clean, skipBlank]
        · simp [clean]
      · simp [plain]

mutual

theorem newline_notMem_write : ∀ value : Json, '\n' ∉ write value
  | .bool true => by decide
  | .bool false => by decide
  | .int value => Json.newline_notMem_literal (NumberLiteral.wellFormed_ofInt value)
  | .float value => Json.newline_notMem_literal (NumberLiteral.wellFormed_ofBinary64 value)
  | .str text => Json.newline_notMem_renderString text
  | .arr [] => by decide
  | .arr (item :: rest) => by
      have first := newline_notMem_write item
      have others := newline_notMem_writeRest rest
      simp [write, first, others]
  | .null => by simp [write]
  | .obj _ => by simp [write]

theorem newline_notMem_writeRest : ∀ items : List Json, '\n' ∉ writeRest items
  | [] => by decide
  | item :: rest => by
      have first := newline_notMem_write item
      have others := newline_notMem_writeRest rest
      simp [writeRest, first, others]

end

theorem newline_notMem_writeKeys (path : List String) : '\n' ∉ writeKeys path := by
  have dotted : ∀ keys, '\n' ∉ writeDotted keys := by
    intro keys
    induction keys with
    | nil => simp [writeDotted]
    | cons key rest ih => simp [writeDotted, Json.newline_notMem_renderString, ih]
  cases path with
  | nil => simp [writeKeys]
  | cons key rest => simp [writeKeys, Json.newline_notMem_renderString, dotted]

theorem newline_notMem_line (line : Line) : '\n' ∉ line.write := by
  cases line with
  | header path => simp [Line.write, newline_notMem_writeKeys]
  | element path => simp [Line.write, newline_notMem_writeKeys]
  | entry key value => simp [Line.write, Json.newline_notMem_renderString, newline_notMem_write]

theorem splitLines_line {line : List Char} (whole : '\n' ∉ line) (rest : List Char) :
    splitLines (line ++ '\n' :: rest) = line :: splitLines rest := by
  induction line with
  | nil => simp [splitLines]
  | cons c line ih =>
      rw [List.mem_cons, not_or] at whole
      rw [List.cons_append, splitLines, if_neg (Ne.symm whole.1), ih whole.2]

/-- The text of a document: its lines with newlines between them and one at the end. -/
def writeLines (lines : List Line) : List Char := ['\n'].intercalate (lines.map Line.write) ++ ['\n']

theorem splitLines_writeLines (lines : List Line) :
    splitLines (writeLines lines) = if lines = [] then [[], []] else lines.map Line.write ++ [[]] := by
  induction lines with
  | nil => rfl
  | cons line rest ih =>
      cases rest with
      | nil =>
          have split := splitLines_line (newline_notMem_line line) []
          simpa [writeLines, splitLines] using split
      | cons next rest =>
          have split := splitLines_line (newline_notMem_line line) (writeLines (next :: rest))
          rw [ih, if_neg (by simp)] at split
          simpa [writeLines, List.intercalate, List.append_assoc] using split

theorem readLines_write {lines : List Line} (formed : lines.all Line.formed = true) :
    readLines (lines.map Line.write ++ [[]]) = if lines.all Line.plain then some lines else none := by
  induction lines with
  | nil => rfl
  | cons line rest ih =>
      simp only [List.all_cons, Bool.and_eq_true] at formed
      simp only [List.map_cons, List.cons_append, readLines, readLine_write formed.1, ih formed.2, List.all_cons]
      by_cases plain : line.plain = true
      · by_cases others : rest.all Line.plain = true
        · simp [plain, others]
        · simp [plain, others]
      · simp [plain]

/-- A written document is read back as its lines unless a string in it holds a delete character. -/
theorem readLines_writeLines {lines : List Line} (formed : lines.all Line.formed = true) :
    readLines (splitLines (writeLines lines)) = if lines.all Line.plain then some lines else none := by
  rw [splitLines_writeLines]
  cases lines with
  | nil => rfl
  | cons line rest =>
      rw [if_neg (by simp)]
      exact readLines_write formed

end Toml
