import FeatureRl.Lib.Checked
import FeatureRl.Lib.TomlTables

/-! The bounded TOML text of a Cargo manifest. -/

namespace FeatureRl

open Checked
open Json (Members renderString)

namespace CargoManifest

/-- A rejected policy with its message. -/
abbrev PolicyRejected := String

structure Emitter where
  lines : List (List Char)
  size : Nat
  members : Nat

section

variable (maxBytes : Int)

def emit (line : List Char) (state : Emitter) : Except PolicyRejected Emitter := do
  let size := state.size + (Utf8.encode line).length + 1
  refuse (maxBytes < size) "Cargo fetch manifest exceeds byte limit"
  .ok { state with lines := state.lines ++ [line], size := size }

mutual

def scalar (depth : Nat) (item : Json) : Except PolicyRejected (List Char) := do
  refuse (16 < depth) "Cargo manifest nesting limit"
  match item with
  | .str text => .ok (renderString text)
  | .int number => .ok (NumberLiteral.ofInt number).render
  | .bool true => .ok ['t', 'r', 'u', 'e']
  | .bool false => .ok ['f', 'a', 'l', 's', 'e']
  | .float number => .ok (NumberLiteral.ofBinary64 number).render
  | .arr items =>
      let texts ← scalars (depth + 1) items
      .ok ('[' :: ([',', ' '].intercalate texts ++ [']']))
  | .null | .obj _ => .error "unsupported Cargo manifest value"

def scalars (depth : Nat) : List Json → Except PolicyRejected (List (List Char))
  | [] => .ok []
  | item :: rest => do
      let text ← scalar depth item
      let texts ← scalars depth rest
      .ok (text :: texts)

end

def header (path : List String) (array : Bool) : List Char :=
  let name := ['.'].intercalate (path.map renderString)
  if array then '[' :: '[' :: (name ++ [']', ']']) else '[' :: (name ++ [']'])

/-- The members that are written on lines of their own. A dictionary lists its members in key order. -/
def visitScalars (path : List String) : Members → Emitter → Except PolicyRejected Emitter
  | [], state => .ok state
  | (key, item) :: rest, state =>
      if Toml.isTable item then visitScalars path rest state
      else do
        let text ← scalar path.length item
        let next ← emit maxBytes (renderString key ++ ' ' :: '=' :: ' ' :: text) state
        visitScalars path rest next

mutual

/-- The value `null` stands for every value that is not a list, a dictionary, a string, a number or a boolean. -/
def visit (path : List String) (array : Bool) : Json → Emitter → Except PolicyRejected Emitter
  | .obj members, state => do
      refuse (16 < path.length) "Cargo manifest nesting limit"
      refuse (4096 < state.members + members.length) "Cargo manifest member limit"
      let counted : Emitter := { state with members := state.members + members.length }
      let opened ← (if path = [] then .ok counted else emit maxBytes (header path array) counted)
      let flat ← visitScalars maxBytes path members opened
      visitTables path members flat
  | _, _ => .error "unsupported Cargo manifest table"

def visitTables (path : List String) : Members → Emitter → Except PolicyRejected Emitter
  | [], state => .ok state
  | (key, item) :: rest, state => do
      let next ←
        (if Toml.isObject item then visit (path ++ [key]) false item state
        else
          match item with
          | .arr items =>
              if items.any Toml.isObject then do
                refuse (items.all Toml.isObject = false) "unsupported mixed Cargo array-of-tables"
                visitChildren (path ++ [key]) items state
              else .ok state
          | _ => .ok state)
      visitTables path rest next

def visitChildren (path : List String) : List Json → Emitter → Except PolicyRejected Emitter
  | [], state => .ok state
  | item :: rest, state => do
      let next ← visit path true item state
      visitChildren path rest next

end

end

def cargoManifest (value : Json) (maxBytes : Int) : Except PolicyRejected Bytes := do
  refuse (¬ (1 ≤ maxBytes ∧ maxBytes ≤ 1024 * 1024)) "invalid Cargo manifest byte limit"
  let state ← visit maxBytes [] false value ⟨[], 0, 0⟩
  .ok (Utf8.encode (['\n'].intercalate state.lines ++ ['\n']))

/-- The value that a TOML reader finds in the bytes. -/
def loads (data : Bytes) : Option Json := do
  let text ← Utf8.decode data
  Toml.loads text

/-! ### The written text -/

theorem intercalate_cons {separator text : List Char} {texts : List (List Char)} :
    separator.intercalate (text :: texts) = text ++ texts.flatMap fun other => separator ++ other := by
  induction texts generalizing text with
  | nil => simp
  | cons next rest ih => rw [List.intercalate_cons_cons, ih, List.flatMap_cons, List.append_assoc, List.append_assoc]

theorem write_items (items : List Json) :
    '[' :: ([',', ' '].intercalate (items.map Toml.write) ++ [']']) = Toml.write (.arr items) := by
  have rest : ∀ others : List Json,
      (others.map Toml.write).flatMap (fun text => [',', ' '] ++ text) ++ [']'] = Toml.writeRest others := by
    intro others
    induction others with
    | nil => rfl
    | cons item others ih => simp [Toml.writeRest, ← ih, List.append_assoc]
  cases items with
  | nil => rfl
  | cons item others => rw [List.map_cons, intercalate_cons, List.append_assoc, rest, Toml.write]

theorem write_path (path : List String) : ['.'].intercalate (path.map renderString) = Toml.writeKeys path := by
  have dotted : ∀ keys : List String,
      (keys.map renderString).flatMap (fun text => ['.'] ++ text) = Toml.writeDotted keys := by
    intro keys
    induction keys with
    | nil => rfl
    | cons key keys ih => simp [Toml.writeDotted, ← ih]
  cases path with
  | nil => rfl
  | cons key keys => rw [List.map_cons, intercalate_cons, dotted, Toml.writeKeys]

mutual

theorem scalar_eq_ok : ∀ (item : Json) (depth : Nat) (text : List Char), scalar depth item = .ok text →
    Toml.isInline item = true ∧ text = Toml.write item
  | .str value, depth, text, accepted => by
      simp only [scalar, bind_eq_ok, refuse_eq_ok] at accepted
      obtain ⟨_, _, done⟩ := accepted
      exact ⟨rfl, (Except.ok.inj done).symm⟩
  | .int value, depth, text, accepted => by
      simp only [scalar, bind_eq_ok, refuse_eq_ok] at accepted
      obtain ⟨_, _, done⟩ := accepted
      exact ⟨rfl, (Except.ok.inj done).symm⟩
  | .float value, depth, text, accepted => by
      simp only [scalar, bind_eq_ok, refuse_eq_ok] at accepted
      obtain ⟨_, _, done⟩ := accepted
      exact ⟨rfl, (Except.ok.inj done).symm⟩
  | .bool true, depth, text, accepted => by
      simp only [scalar, bind_eq_ok, refuse_eq_ok] at accepted
      obtain ⟨_, _, done⟩ := accepted
      exact ⟨rfl, (Except.ok.inj done).symm⟩
  | .bool false, depth, text, accepted => by
      simp only [scalar, bind_eq_ok, refuse_eq_ok] at accepted
      obtain ⟨_, _, done⟩ := accepted
      exact ⟨rfl, (Except.ok.inj done).symm⟩
  | .arr items, depth, text, accepted => by
      simp only [scalar, bind_eq_ok, refuse_eq_ok] at accepted
      obtain ⟨_, _, texts, written, done⟩ := accepted
      obtain ⟨inline, rfl⟩ := scalars_eq_ok items (depth + 1) texts written
      exact ⟨inline, (Except.ok.inj done).symm.trans (write_items items)⟩
  | .null, depth, text, accepted => by simp [scalar, bind_eq_ok] at accepted
  | .obj members, depth, text, accepted => by simp [scalar, bind_eq_ok] at accepted

theorem scalars_eq_ok : ∀ (items : List Json) (depth : Nat) (texts : List (List Char)),
    scalars depth items = .ok texts → Toml.areInline items = true ∧ texts = items.map Toml.write
  | [], depth, texts, accepted => by
      obtain rfl := Except.ok.inj accepted
      exact ⟨rfl, rfl⟩
  | item :: rest, depth, texts, accepted => by
      simp only [scalars, bind_eq_ok] at accepted
      obtain ⟨text, first, others, later, done⟩ := accepted
      obtain rfl := Except.ok.inj done
      obtain ⟨inline, rfl⟩ := scalar_eq_ok item depth text first
      obtain ⟨inlines, rfl⟩ := scalars_eq_ok rest depth others later
      exact ⟨by simp [Toml.areInline, inline, inlines], rfl⟩

end

theorem emit_eq_ok {maxBytes : Int} {line : List Char} {state next : Emitter}
    (accepted : emit maxBytes line state = .ok next) : next.lines = state.lines ++ [line] := by
  simp only [emit, bind_eq_ok] at accepted
  obtain ⟨_, _, done⟩ := accepted
  obtain rfl := Except.ok.inj done
  rfl

theorem header_write (path : List String) (array : Bool) :
    header path array = (if array then Toml.Line.element path else .header path).write := by
  cases array <;> simp [header, write_path, Toml.Line.write]

theorem supported_of_inline {item : Json} (inline : Toml.isInline item = true) (flat : Toml.isTable item = false) :
    Toml.supported item = true := by
  cases item with
  | null => cases inline
  | arr items =>
      simp only [Toml.isTable] at flat
      simpa [Toml.supported, flat, Toml.isInline] using inline
  | obj members => cases inline
  | _ => rfl

/-- The values of a table are written before its tables. -/
theorem visitScalars_eq_ok {maxBytes : Int} {path : List String} {members : Members} {state next : Emitter}
    (accepted : visitScalars maxBytes path members state = .ok next) :
    (∀ member ∈ members, Toml.isTable member.2 = false → Toml.supported member.2 = true) ∧
      next.lines = state.lines ++ (Toml.entries members).map Toml.Line.write := by
  induction members generalizing state with
  | nil =>
      obtain rfl := Except.ok.inj accepted
      simp [Toml.entries]
  | cons member rest ih =>
      obtain ⟨key, item⟩ := member
      rw [visitScalars] at accepted
      cases table : Toml.isTable item with
      | true =>
          rw [if_pos table] at accepted
          obtain ⟨holds, lines⟩ := ih accepted
          constructor
          · intro member listed flat
            rcases List.mem_cons.mp listed with rfl | later
            · rw [table] at flat
              cases flat
            · exact holds member later flat
          · rw [lines]
            simp [Toml.entries, table]
      | false =>
          simp only [table, Bool.false_eq_true, ↓reduceIte, bind_eq_ok] at accepted
          obtain ⟨text, written, middle, emitted, later⟩ := accepted
          obtain ⟨inline, rfl⟩ := scalar_eq_ok item _ text written
          obtain ⟨holds, lines⟩ := ih later
          constructor
          · intro member listed flat
            rcases List.mem_cons.mp listed with rfl | others
            · exact supported_of_inline inline flat
            · exact holds member others flat
          · rw [lines, emit_eq_ok emitted]
            simp [Toml.entries, table, Toml.Line.write]

/-- The header of a table; the whole document has none. -/
def opening (path : List String) (array : Bool) : List Toml.Line :=
  if path = [] then [] else [if array then .element path else .header path]

mutual

theorem visit_eq_ok {maxBytes : Int} : ∀ (item : Json) (path : List String) (array : Bool) (state next : Emitter),
    visit maxBytes path array item state = .ok next → ∃ members, item = .obj members ∧
      Toml.supportedMembers members = true ∧
      next.lines = state.lines ++ (opening path array ++ Toml.tableLines path members).map Toml.Line.write
  | .obj members, path, array, state, next, accepted => by
      simp only [visit, bind_eq_ok] at accepted
      obtain ⟨_, _, _, _, opened, headed, flat, scalars_written, tables_written⟩ := accepted
      obtain ⟨flat_holds, flat_lines⟩ := visitScalars_eq_ok scalars_written
      obtain ⟨table_holds, table_lines⟩ := visitTables_eq_ok members path flat next tables_written
      have opened_lines : opened.lines = state.lines ++ (opening path array).map Toml.Line.write := by
        by_cases root : path = []
        · rw [if_pos root] at headed
          obtain rfl := Except.ok.inj headed
          simp [opening, root]
        · rw [if_neg root] at headed
          rw [emit_eq_ok headed, header_write]
          simp [opening, root]
      refine ⟨members, rfl, ?_, ?_⟩
      · rw [Toml.supportedMembers_iff]
        intro member listed
        cases table : Toml.isTable member.2 with
        | true => exact table_holds member listed table
        | false => exact flat_holds member listed table
      · rw [table_lines, flat_lines, opened_lines, Toml.tableLines]
        simp only [List.map_append, List.append_assoc]
  | .null, _, _, _, _, accepted | .bool _, _, _, _, _, accepted | .int _, _, _, _, _, accepted
  | .float _, _, _, _, _, accepted | .str _, _, _, _, _, accepted | .arr _, _, _, _, _, accepted => by
      simp [visit] at accepted

theorem visitTables_eq_ok {maxBytes : Int} : ∀ (members : Members) (path : List String) (state next : Emitter),
    visitTables maxBytes path members state = .ok next →
      (∀ member ∈ members, Toml.isTable member.2 = true → Toml.supported member.2 = true) ∧
        next.lines = state.lines ++ (Toml.subLines path members).map Toml.Line.write
  | [], path, state, next, accepted => by
      simp only [visitTables] at accepted
      obtain rfl := Except.ok.inj accepted
      simp [Toml.subLines]
  | (key, item) :: rest, path, state, next, accepted => by
      unfold visitTables at accepted
      obtain ⟨middle, visited, later⟩ := bind_eq_ok.mp accepted
      obtain ⟨holds, lines⟩ := visitTables_eq_ok rest path middle next later
      have here : (Toml.isTable item = true → Toml.supported item = true) ∧
          middle.lines = state.lines ++ (Toml.itemLines (path ++ [key]) item).map Toml.Line.write := by
        cases object : Toml.isObject item with
        | true =>
            rw [if_pos object] at visited
            obtain ⟨members, rfl, holds, lines⟩ := visit_eq_ok item (path ++ [key]) false state middle visited
            refine ⟨fun _ => holds, ?_⟩
            rw [lines]
            simp [opening, Toml.itemLines, Toml.tableLines]
        | false =>
            rw [if_neg (by simp [object])] at visited
            cases item with
            | obj members => cases object
            | arr items =>
                by_cases some_table : items.any Toml.isObject = true
                · simp only [some_table, ↓reduceIte, bind_eq_ok] at visited
                  obtain ⟨_, _, children⟩ := visited
                  obtain ⟨holds, lines⟩ :=
                    visitChildren_eq_ok items (path ++ [key]) state middle (by simp) children
                  refine ⟨fun _ => by simp [Toml.supported, some_table, holds], ?_⟩
                  rw [lines]
                  simp [Toml.itemLines, some_table]
                · simp only [some_table] at visited
                  obtain rfl := Except.ok.inj visited
                  simp [Toml.isTable, Toml.itemLines, some_table]
            | _ =>
                obtain rfl := Except.ok.inj visited
                simp [Toml.isTable, Toml.itemLines]
      constructor
      · intro member listed table
        rcases List.mem_cons.mp listed with rfl | others
        · exact here.1 table
        · exact holds member others table
      · rw [lines, here.2, Toml.subLines]
        simp only [List.map_append, List.append_assoc]

theorem visitChildren_eq_ok {maxBytes : Int} : ∀ (items : List Json) (path : List String) (state next : Emitter),
    path ≠ [] → visitChildren maxBytes path items state = .ok next →
      Toml.tablesOnly items = true ∧
        next.lines = state.lines ++ (Toml.elementLines path items).map Toml.Line.write
  | [], path, state, next, _, accepted => by
      simp only [visitChildren] at accepted
      obtain rfl := Except.ok.inj accepted
      simp [Toml.elementLines, Toml.tablesOnly]
  | item :: rest, path, state, next, nonempty, accepted => by
      simp only [visitChildren, bind_eq_ok] at accepted
      obtain ⟨middle, visited, later⟩ := accepted
      obtain ⟨members, rfl, holds, lines⟩ := visit_eq_ok item path true state middle visited
      obtain ⟨others, other_lines⟩ := visitChildren_eq_ok rest path middle next nonempty later
      constructor
      · simp [Toml.tablesOnly, holds, others]
      · rw [other_lines, lines]
        simp [Toml.elementLines, Toml.tableLines, opening, nonempty]

end

/-! ### Reading the manifest back -/

theorem intercalate_lines (lines : List Toml.Line) :
    ['\n'].intercalate (lines.map Toml.Line.write) ++ ['\n'] = Toml.writeLines lines := rfl

theorem loads_cargoManifest {value : Json} (formed : value.normal = true) {maxBytes : Int} {data : Bytes}
    (accepted : cargoManifest value maxBytes = .ok data) :
    loads data = if Toml.plainValue value then some value else none := by
  simp only [cargoManifest, bind_eq_ok] at accepted
  obtain ⟨_, _, state, visited, done⟩ := accepted
  obtain rfl := Except.ok.inj done
  obtain ⟨members, rfl, holds, lines⟩ := visit_eq_ok value [] false _ state visited
  have text : state.lines = (Toml.tableLines [] members).map Toml.Line.write := by
    rw [lines]
    simp [opening]
  rw [loads, Utf8.decode_encode, text, intercalate_lines]
  exact Toml.loads_writeLines holds formed

/-- An accepted manifest is valid TOML with the same value exactly when no string and no key in it holds a
delete character. -/
theorem cargoManifest_reads_back_iff (value : Json) (formed : value.normal = true) (maxBytes : Int) (data : Bytes)
    (accepted : cargoManifest value maxBytes = .ok data) :
    loads data = some value ↔ Toml.plainValue value = true := by
  rw [loads_cargoManifest formed accepted]
  cases Toml.plainValue value with
  | true => simp
  | false => simp

namespace Sample

def package (name : String) : Json :=
  .obj [("bin", .arr [.obj [("name", .str "tool"), ("path", .str "src/main.rs")], .obj [("name", .str "a\"b")]]),
    ("features", .obj [("default", .arr [.str "std", .arr [], .int (-3), .bool true])]),
    ("package", .obj [("edition", .str "2021"), ("name", .str name)])]

end Sample

theorem cargoManifest_reads_back_iff_sample : ∃ data,
    cargoManifest (Sample.package "café") (1024 * 1024) = .ok data ∧
      loads data = some (Sample.package "café") := by
  obtain ⟨data, accepted⟩ : ∃ data, cargoManifest (Sample.package "café") (1024 * 1024) = .ok data :=
    exists_ok (by decide +kernel)
  exact ⟨data, accepted, (cargoManifest_reads_back_iff _ (by decide +kernel) _ data accepted).mpr
    (by decide +kernel)⟩

/-- A name that ends in a delete character is written as it is, and what is written is not TOML. -/
theorem delete_unreadable : ∃ data,
    cargoManifest (Sample.package "tool\x7f") (1024 * 1024) = .ok data ∧ loads data = none := by
  obtain ⟨data, accepted⟩ : ∃ data, cargoManifest (Sample.package "tool\x7f") (1024 * 1024) = .ok data :=
    exists_ok (by decide +kernel)
  refine ⟨data, accepted, ?_⟩
  have formed : (Sample.package "tool\x7f").normal = true := by decide +kernel
  have unclean : Toml.plainValue (Sample.package "tool\x7f") = false := by decide +kernel
  rw [loads_cargoManifest formed accepted, unclean]
  rfl

end CargoManifest

end FeatureRl
