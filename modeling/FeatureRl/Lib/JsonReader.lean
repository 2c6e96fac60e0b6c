import FeatureRl.Lib.Json

/-!
A JSON reader with Python's grammar: blanks between tokens, `\u` escapes with surrogate
pairs, doubles rounded to nearest, duplicate keys and non-finite numbers refused. It
inverts the canonical text.
-/

namespace Json

def isSpace (c : Char) : Bool := c = ' ' || c = '\t' || c = '\n' || c = '\r'

def skipSpace : List Char → List Char
  | [] => []
  | c :: rest => if isSpace c then skipSpace rest else c :: rest

def stripPrefix : List Char → List Char → Option (List Char)
  | [], text => some text
  | _ :: _, [] => none
  | p :: rest, c :: text => if p = c then stripPrefix rest text else none

def hexValue (c : Char) : Option Nat :=
  if '0' ≤ c ∧ c ≤ '9' then some (c.toNat - 48)
  else if 'a' ≤ c ∧ c ≤ 'f' then some (c.toNat - 87)
  else if 'A' ≤ c ∧ c ≤ 'F' then some (c.toNat - 55)
  else none

def hexCode (a b c d : Char) : Option Nat := do
  let a ← hexValue a
  let b ← hexValue b
  let c ← hexValue c
  let d ← hexValue d
  return ((a * 16 + b) * 16 + c) * 16 + d

def unescape (c : Char) : Option Char :=
  if c = '"' ∨ c = '\\' ∨ c = '/' then some c
  else if c = 'b' then some (Char.ofNat 8)
  else if c = 'f' then some (Char.ofNat 12)
  else if c = 'n' then some '\n'
  else if c = 'r' then some '\r'
  else if c = 't' then some '\t'
  else none

def prepend (c : Char) (result : Option (List Char × List Char)) :
    Option (List Char × List Char) :=
  result.map fun (text, after) => (c :: text, after)

/-- The text up to the closing quote. A surrogate outside a pair is refused: no text that
contains one has an encoding. -/
def parseString : List Char → Option (List Char × List Char)
  | [] => none
  | '\\' :: 'u' :: a :: b :: c :: d :: rest =>
      match hexCode a b c d with
      | none => none
      | some code =>
          if 0xD800 ≤ code ∧ code < 0xDC00 then
            match rest with
            | '\\' :: 'u' :: e :: f :: g :: h :: more =>
                match hexCode e f g h with
                | none => none
                | some low =>
                    if 0xDC00 ≤ low ∧ low < 0xE000 then
                      prepend (Char.ofNat (0x10000 + (code - 0xD800) * 0x400 + (low - 0xDC00)))
                        (parseString more)
                    else none
            | _ => none
          else if 0xDC00 ≤ code ∧ code < 0xE000 then none
          else prepend (Char.ofNat code) (parseString rest)
  | '\\' :: c :: rest =>
      match unescape c with
      | none => none
      | some plain => prepend plain (parseString rest)
  | c :: rest =>
      if c = '"' then some ([], rest)
      else if c = '\\' ∨ c.toNat < 32 then none
      else prepend c (parseString rest)

def parseNumber (text : List Char) : Option (Json × List Char) := do
  let (literal, after) ← NumberLiteral.scan text
  if literal.isInteger then some (.int literal.toInt, after)
  else
    let value ← literal.toBinary64
    some (.float value, after)

def distinctKeys (members : Members) : Bool := decide (members.map Prod.fst).Nodup

mutual

/-- One value at the front of the text. -/
def parseValue : Nat → List Char → Option (Json × List Char)
  | 0, _ => none
  | _ + 1, [] => none
  | fuel + 1, c :: rest =>
      if c = '"' then do
        let (text, after) ← parseString rest
        some (.str (String.ofList text), after)
      else if c = '{' then
        match skipSpace rest with
        | '}' :: after => some (.obj [], after)
        | text => do
            let (members, after) ← parseMembers fuel text
            if distinctKeys members then some (dict members, after) else none
      else if c = '[' then
        match skipSpace rest with
        | ']' :: after => some (.arr [], after)
        | text => do
            let (items, after) ← parseItems fuel text
            some (.arr items, after)
      else if c = 'n' then (stripPrefix ['u', 'l', 'l'] rest).map fun after => (.null, after)
      else if c = 't' then
        (stripPrefix ['r', 'u', 'e'] rest).map fun after => (.bool true, after)
      else if c = 'f' then
        (stripPrefix ['a', 'l', 's', 'e'] rest).map fun after => (.bool false, after)
      else parseNumber (c :: rest)

/-- A nonempty sequence of values up to the closing bracket. -/
def parseItems : Nat → List Char → Option (List Json × List Char)
  | 0, _ => none
  | fuel + 1, text => do
      let (value, after) ← parseValue fuel text
      match skipSpace after with
      | ',' :: more =>
          let (values, after) ← parseItems fuel (skipSpace more)
          some (value :: values, after)
      | ']' :: after => some ([value], after)
      | _ => none

/-- A nonempty sequence of members up to the closing brace. -/
def parseMembers : Nat → List Char → Option (Members × List Char)
  | 0, _ => none
  | _ + 1, [] => none
  | fuel + 1, c :: rest =>
      if c = '"' then do
        let (key, after) ← parseString rest
        match skipSpace after with
        | ':' :: text =>
            let (value, after) ← parseValue fuel (skipSpace text)
            match skipSpace after with
            | ',' :: more =>
                let (members, after) ← parseMembers fuel (skipSpace more)
                some ((String.ofList key, value) :: members, after)
            | '}' :: after => some ([(String.ofList key, value)], after)
            | _ => none
        | _ => none
      else none

end

/-- The whole text is one value between blanks. -/
def parse (text : List Char) : Option Json := do
  let (value, after) ← parseValue (2 * text.length) (skipSpace text)
  if skipSpace after = [] then some value else none

def loads (data : Bytes) : Option Json := do
  let text ← Utf8.decode data
  parse text

/-! ### Reading canonical text back -/

theorem prepend_some (c : Char) (text after : List Char) :
    prepend c (some (text, after)) = some (c :: text, after) := rfl

theorem hexCode_control : ∀ code < 32,
    hexCode '0' '0' (Nat.digitChar (code / 16)) (Nat.digitChar (code % 16)) = some code := by
  decide

theorem parseString_plain {c : Char} (notQuote : c ≠ '"') (notSlash : c ≠ '\\')
    (printable : ¬ c.toNat < 32) (text : List Char) :
    parseString (c :: text) = prepend c (parseString text) := by
  rw [parseString]
  · simp [notQuote, notSlash, printable]
  · exact fun _ _ _ _ _ same => absurd same notSlash
  · exact fun _ _ same => absurd same notSlash

/-- Reading an escaped character gives the character. -/
theorem parseString_escapeChar (c : Char) (text : List Char) :
    parseString (escapeChar c ++ text) = prepend c (parseString text) := by
  simp only [escapeChar]
  split_ifs with quote slash feed back tab form bell control
  · subst quote; simp [parseString, unescape]
  · subst slash; simp [parseString, unescape]
  · subst feed; simp [parseString, unescape]
  · subst back; simp [parseString, unescape]
  · subst tab; simp [parseString, unescape]
  · have same : c = Char.ofNat 12 := by rw [← form, Char.ofNat_toNat]
    simp [parseString, unescape, same]
  · have same : c = Char.ofNat 8 := by rw [← bell, Char.ofNat_toNat]
    simp [parseString, unescape, same]
  · have notHigh : ¬ (0xD800 ≤ c.toNat ∧ c.toNat < 0xDC00) := by omega
    have notLow : ¬ (0xDC00 ≤ c.toNat ∧ c.toNat < 0xE000) := by omega
    simp only [List.cons_append, List.nil_append, parseString, hexCode_control _ control,
      notHigh, notLow, ↓reduceIte, Char.ofNat_toNat]
  · exact parseString_plain quote slash control text

theorem parseString_render (text : List Char) (rest : List Char) :
    parseString (text.flatMap escapeChar ++ '"' :: rest) = some (text, rest) := by
  induction text with
  | nil => simp [parseString]
  | cons c text ih =>
      rw [List.flatMap_cons, List.append_assoc, parseString_escapeChar, ih, prepend_some]

theorem skipSpace_cons {c : Char} (solid : isSpace c = false) (rest : List Char) :
    skipSpace (c :: rest) = c :: rest := by simp [skipSpace, solid]

/-- How a canonical value may start: never with a blank, a bracket that closes or a comma. -/
def Opening (c : Char) : Prop :=
  isSpace c = false ∧ c ≠ ']' ∧ c ≠ '}' ∧ c ≠ ','

theorem opening_of_digit {c : Char} (found : c = '-' ∨ c.isDigit = true) : Opening c := by
  rcases found with rfl | digit
  · exact ⟨rfl, by decide, by decide, by decide⟩
  · have clash (other : Char) (plain : other.isDigit = false) : c ≠ other := by
      rintro rfl
      simp [digit] at plain
    refine ⟨?_, clash ']' rfl, clash '}' rfl, clash ',' rfl⟩
    simp [isSpace, clash ' ' rfl, clash '\t' rfl, clash '\n' rfl, clash '\r' rfl]

theorem literal_opening {literal : NumberLiteral} (formed : literal.WellFormed) :
    ∃ c rest, literal.render = c :: rest ∧ Opening c := by
  obtain ⟨c, rest, split⟩ := List.exists_cons_of_ne_nil (NumberLiteral.render_ne_nil formed)
  exact ⟨c, rest, split, opening_of_digit (NumberLiteral.head_render formed (by simp [split]))⟩

theorem render_opening : ∀ value : Json, ∃ c rest, value.render = c :: rest ∧ Opening c
  | .null | .bool true | .bool false | .arr [] | .arr (_ :: _) | .obj [] | .obj ((_, _) :: _) =>
      by rw [render]; exact ⟨_, _, rfl, rfl, by decide, by decide, by decide⟩
  | .str _ => by rw [render, renderString]; exact ⟨_, _, rfl, rfl, by decide, by decide, by decide⟩
  | .int value => by rw [render]; exact literal_opening (NumberLiteral.wellFormed_ofInt value)
  | .float value => by
      rw [render]; exact literal_opening (NumberLiteral.wellFormed_ofBinary64 value)

theorem skipSpace_render (value : Json) (rest : List Char) :
    skipSpace (value.render ++ rest) = value.render ++ rest := by
  obtain ⟨c, others, split, opening⟩ := render_opening value
  rw [split, List.cons_append, skipSpace_cons opening.1]

theorem parseValue_digit {c : Char} (found : c = '-' ∨ c.isDigit = true) (fuel : Nat)
    (rest : List Char) : parseValue (fuel + 1) (c :: rest) = parseNumber (c :: rest) := by
  have clash (other : Char) (plain : ¬ (other = '-' ∨ other.isDigit = true)) : c ≠ other := by
    rintro rfl
    exact plain found
  rw [parseValue]
  simp [clash '"' (by decide), clash '{' (by decide), clash '[' (by decide),
    clash 'n' (by decide), clash 't' (by decide), clash 'f' (by decide)]

theorem parseValue_literal {literal : NumberLiteral} (formed : literal.WellFormed) (fuel : Nat)
    (rest : List Char) :
    parseValue (fuel + 1) (literal.render ++ rest) = parseNumber (literal.render ++ rest) := by
  obtain ⟨c, others, split⟩ := List.exists_cons_of_ne_nil (NumberLiteral.render_ne_nil formed)
  have first := NumberLiteral.head_render formed (c := c) (by simp [split])
  rw [split, List.cons_append]
  exact parseValue_digit first fuel _

theorem parseNumber_ofInt (value : Int) {rest : List Char}
    (stop : NumberLiteral.Terminated rest) :
    parseNumber ((NumberLiteral.ofInt value).render ++ rest) = some (.int value, rest) := by
  rw [parseNumber, NumberLiteral.scan_render (NumberLiteral.wellFormed_ofInt value) stop]
  simp [NumberLiteral.isInteger_ofInt, NumberLiteral.toInt_ofInt]

theorem parseNumber_ofBinary64 (value : Binary64) {rest : List Char}
    (stop : NumberLiteral.Terminated rest) :
    parseNumber ((NumberLiteral.ofBinary64 value).render ++ rest) = some (.float value, rest) := by
  rw [parseNumber, NumberLiteral.scan_render (NumberLiteral.wellFormed_ofBinary64 value) stop]
  simp [NumberLiteral.isInteger_ofBinary64, NumberLiteral.toBinary64_ofBinary64]

theorem terminated_of_head {c : Char} (plain : c.isDigit = false ∧ c ≠ '.' ∧ c ≠ 'e' ∧ c ≠ 'E')
    (rest : List Char) : NumberLiteral.Terminated (c :: rest) := by
  intro other first
  obtain rfl : c = other := by simpa using first
  exact plain

theorem terminated_renderItems (items : List Json) (rest : List Char) :
    NumberLiteral.Terminated (renderItems items ++ rest) := by
  cases items <;> exact terminated_of_head (by decide) _

theorem terminated_renderMembers (members : Members) (rest : List Char) :
    NumberLiteral.Terminated (renderMembers members ++ rest) := by
  rcases members with _ | ⟨⟨key, value⟩, members⟩ <;> exact terminated_of_head (by decide) _

theorem skipSpace_renderString (text : String) (rest : List Char) :
    skipSpace (renderString text ++ rest) = renderString text ++ rest := rfl

theorem parseString_renderString (text : String) (rest : List Char) :
    parseString (text.toList.flatMap escapeChar ++ ['"'] ++ rest) = some (text.toList, rest) := by
  rw [List.append_assoc]
  exact parseString_render text.toList rest

/-- An opened array continues with its items unless it closes at once. -/
theorem parseValue_array (fuel : Nat) (item : Json) (text : List Char) :
    parseValue (fuel + 1) ('[' :: (item.render ++ text)) =
      (parseItems fuel (item.render ++ text)).map fun (items, after) => (.arr items, after) := by
  obtain ⟨c, others, split, opening⟩ := render_opening item
  have skipped : skipSpace (c :: (others ++ text)) = c :: (others ++ text) :=
    skipSpace_cons opening.1 _
  rw [parseValue, split, List.cons_append, if_neg (by decide), if_neg (by decide),
    if_pos rfl]
  simp only [skipped]
  split
  next after same => exact absurd (List.cons.inj same).1 opening.2.1
  next => cases parseItems fuel (c :: (others ++ text)) <;> rfl

mutual

/-- The reader inverts `render`; the fuel covers two calls for each character. -/
theorem parseValue_render : ∀ (value : Json) (fuel : Nat) (rest : List Char),
    value.normal = true → NumberLiteral.Terminated rest →
    2 * (value.render ++ rest).length ≤ fuel →
    parseValue fuel (value.render ++ rest) = some (value, rest)
  | .null, fuel, rest, _, _, enough => by
      obtain ⟨fuel, rfl⟩ : ∃ less, fuel = less + 1 := ⟨fuel - 1, by simp [render] at enough; omega⟩
      simp [render, parseValue, stripPrefix]
  | .bool true, fuel, rest, _, _, enough => by
      obtain ⟨fuel, rfl⟩ : ∃ less, fuel = less + 1 := ⟨fuel - 1, by simp [render] at enough; omega⟩
      simp [render, parseValue, stripPrefix]
  | .bool false, fuel, rest, _, _, enough => by
      obtain ⟨fuel, rfl⟩ : ∃ less, fuel = less + 1 := ⟨fuel - 1, by simp [render] at enough; omega⟩
      simp [render, parseValue, stripPrefix]
  | .int value, fuel, rest, _, stop, enough => by
      have formed := NumberLiteral.wellFormed_ofInt value
      have size := List.length_pos_of_ne_nil (NumberLiteral.render_ne_nil formed)
      simp only [render, List.length_append] at enough ⊢
      obtain ⟨fuel, rfl⟩ : ∃ less, fuel = less + 1 := ⟨fuel - 1, by omega⟩
      rw [parseValue_literal formed, parseNumber_ofInt value stop]
  | .float value, fuel, rest, _, stop, enough => by
      have formed := NumberLiteral.wellFormed_ofBinary64 value
      have size := List.length_pos_of_ne_nil (NumberLiteral.render_ne_nil formed)
      simp only [render, List.length_append] at enough ⊢
      obtain ⟨fuel, rfl⟩ : ∃ less, fuel = less + 1 := ⟨fuel - 1, by omega⟩
      rw [parseValue_literal formed, parseNumber_ofBinary64 value stop]
  | .str text, fuel, rest, _, _, enough => by
      simp only [render, renderString, List.cons_append, List.length_cons] at enough ⊢
      obtain ⟨fuel, rfl⟩ : ∃ less, fuel = less + 1 := ⟨fuel - 1, by omega⟩
      rw [parseValue, if_pos rfl, parseString_renderString]
      simp [String.ofList_toList]
  | .arr [], fuel, rest, _, _, enough => by
      obtain ⟨fuel, rfl⟩ : ∃ less, fuel = less + 1 := ⟨fuel - 1, by simp [render] at enough; omega⟩
      simp [render, parseValue, skipSpace, isSpace]
  | .arr (item :: items), fuel, rest, formed, _, enough => by
      simp only [render, List.cons_append, List.append_assoc, List.length_cons] at enough ⊢
      obtain ⟨fuel, rfl⟩ : ∃ less, fuel = less + 1 := ⟨fuel - 1, by omega⟩
      rw [parseValue_array, parseItems_render item items fuel rest formed (by omega)]
      rfl
  | .obj [], fuel, rest, _, _, enough => by
      obtain ⟨fuel, rfl⟩ : ∃ less, fuel = less + 1 := ⟨fuel - 1, by simp [render] at enough; omega⟩
      simp [render, parseValue, skipSpace, isSpace]
  | .obj ((key, value) :: members), fuel, rest, formed, _, enough => by
      simp only [normal, Bool.and_eq_true] at formed
      simp only [render, List.cons_append, List.append_assoc, List.length_cons] at enough ⊢
      obtain ⟨fuel, rfl⟩ : ∃ less, fuel = less + 1 := ⟨fuel - 1, by omega⟩
      have read := parseMembers_render key value members fuel rest formed.2 (by omega)
      have distinct : distinctKeys ((key, value) :: members) = true :=
        decide_eq_true (nodup_of_sortedKeys formed.1)
      rw [parseValue]
      simp only [skipSpace_renderString]
      simp [renderString] at read ⊢
      simp [read, distinct, dict, sortMembers_of_sortedKeys formed.1]
termination_by _ fuel => fuel

theorem parseItems_render : ∀ (item : Json) (items : List Json) (fuel : Nat) (rest : List Char),
    normalItems (item :: items) = true →
    2 * (item.render ++ (renderItems items ++ rest)).length + 1 ≤ fuel →
    parseItems fuel (item.render ++ (renderItems items ++ rest)) = some (item :: items, rest)
  | item, [], fuel, rest, formed, enough => by
      simp only [normalItems, Bool.and_eq_true] at formed
      obtain ⟨fuel, rfl⟩ : ∃ less, fuel = less + 1 := ⟨fuel - 1, by omega⟩
      have read := parseValue_render item fuel (renderItems [] ++ rest) formed.1
        (terminated_renderItems [] rest) (by omega)
      rw [parseItems, read]
      simp [renderItems, skipSpace, isSpace]
  | item, next :: items, fuel, rest, formed, enough => by
      obtain ⟨first, others⟩ := (Bool.and_eq_true _ _).mp formed
      obtain ⟨fuel, rfl⟩ : ∃ less, fuel = less + 1 := ⟨fuel - 1, by omega⟩
      have read := parseValue_render item fuel (renderItems (next :: items) ++ rest) first
        (terminated_renderItems _ rest) (by omega)
      have tail := parseItems_render next items fuel rest others (by
        simp only [renderItems, List.length_append, List.length_cons] at enough ⊢
        omega)
      rw [parseItems, read]
      simp only [renderItems, List.cons_append, List.append_assoc, skipSpace_render,
        skipSpace_cons (show isSpace ',' = false from rfl), Option.bind_eq_bind,
        Option.bind_some, tail]
termination_by _ _ fuel => fuel

theorem parseMembers_render : ∀ (key : String) (value : Json) (members : Members) (fuel : Nat)
    (rest : List Char), normalMembers ((key, value) :: members) = true →
    2 * (renderString key ++ ':' :: (value.render ++ (renderMembers members ++ rest))).length + 1
      ≤ fuel →
    parseMembers fuel
        (renderString key ++ ':' :: (value.render ++ (renderMembers members ++ rest))) =
      some ((key, value) :: members, rest)
  | key, value, [], fuel, rest, formed, enough => by
      simp only [normalMembers, Bool.and_eq_true] at formed
      obtain ⟨fuel, rfl⟩ : ∃ less, fuel = less + 1 := ⟨fuel - 1, by omega⟩
      have read := parseValue_render value fuel (renderMembers [] ++ rest) formed.1
        (terminated_renderMembers [] rest) (by
          simp only [List.length_append, List.length_cons] at enough ⊢
          omega)
      simp only [renderString, List.cons_append, parseMembers, ↓reduceIte,
        parseString_renderString, Option.bind_eq_bind, Option.bind_some,
        skipSpace_cons (show isSpace ':' = false from rfl), skipSpace_render, read]
      simp [renderMembers, skipSpace, isSpace]
  | key, value, (nextKey, next) :: members, fuel, rest, formed, enough => by
      obtain ⟨first, others⟩ := (Bool.and_eq_true _ _).mp formed
      obtain ⟨fuel, rfl⟩ : ∃ less, fuel = less + 1 := ⟨fuel - 1, by omega⟩
      have read := parseValue_render value fuel
        (renderMembers ((nextKey, next) :: members) ++ rest) first
        (terminated_renderMembers _ rest) (by
          simp only [List.length_append, List.length_cons] at enough ⊢
          omega)
      have tail := parseMembers_render nextKey next members fuel rest others (by
        simp only [renderMembers, List.length_append, List.length_cons] at enough ⊢
        omega)
      simp only [renderString, List.cons_append, parseMembers, ↓reduceIte,
        parseString_renderString, Option.bind_eq_bind, Option.bind_some,
        skipSpace_cons (show isSpace ':' = false from rfl), skipSpace_render, read]
      simp only [renderMembers, List.cons_append, List.append_assoc, skipSpace_renderString,
        skipSpace_cons (show isSpace ',' = false from rfl), tail, Option.bind_some,
        String.ofList_toList]
termination_by _ _ _ fuel => fuel

end

/-- A rendered value is read back from a text that continues with blanks only. -/
theorem parse_render {value : Json} (formed : value.normal = true) {blanks : List Char}
    (stop : NumberLiteral.Terminated blanks) (skipped : skipSpace blanks = []) :
    parse (value.render ++ blanks) = some value := by
  have read := parseValue_render value (2 * (value.render ++ blanks).length) blanks formed stop
    (Nat.le_refl _)
  rw [parse, skipSpace_render, read]
  exact if_pos skipped

/-- Loading canonical bytes gives the value they were written from. -/
theorem loads_canonical {value : Json} (formed : value.normal = true) :
    loads value.canonical = some value := by
  have stop : NumberLiteral.Terminated [] := by simp [NumberLiteral.Terminated]
  have read := parse_render formed stop rfl
  rw [List.append_nil] at read
  simp [loads, canonical, Utf8.decode_encode, read]

/-- The same for a line of canonical bytes. -/
theorem loads_line {value : Json} (formed : value.normal = true) :
    loads (value.canonical ++ [10]) = some value := by
  have text : value.canonical ++ [10] = Utf8.encode (value.render ++ ['\n']) := by
    rw [Utf8.encode_append]
    rfl
  have read := parse_render formed (terminated_of_head (c := '\n') (by decide) []) rfl
  rw [loads, text, Utf8.decode_encode]
  exact read

theorem canonical_injective {first second : Json} (formed : first.normal = true)
    (other : second.normal = true) (same : first.canonical = second.canonical) :
    first = second := by
  have read := loads_canonical formed
  rw [same, loads_canonical other] at read
  exact (Option.some.inj read).symm

end Json
