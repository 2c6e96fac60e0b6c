import FeatureRl.Lib.JsonReader

/-!
The part of TOML 1.0 in which tables can be written out: quoted keys, basic strings, decimal numbers, booleans,
arrays on one line, and the headers of tables and of arrays of tables. A value is read as JSON.
-/

namespace Toml

open Json (Members prepend hexCode)

/-! ### Reading a line -/

def isBlank (c : Char) : Bool := c = ' ' || c = '\t'

def skipBlank : List Char → List Char
  | [] => []
  | c :: rest => if isBlank c then skipBlank rest else c :: rest

/-- A character that stands for itself in a basic string: no control character but the tab. -/
def isBasic (c : Char) : Bool := c = '\t' || (decide (32 ≤ c.toNat) && c.toNat != 127 && c != '"' && c != '\\')

def unescape (c : Char) : Option Char :=
  if c = '"' ∨ c = '\\' then some c
  else if c = 'b' then some (Char.ofNat 8)
  else if c = 'f' then some (Char.ofNat 12)
  else if c = 'n' then some '\n'
  else if c = 'r' then some '\r'
  else if c = 't' then some '\t'
  else none

/-- A basic string up to its closing quote. -/
def readBasic : List Char → Option (List Char × List Char)
  | [] => none
  | '\\' :: 'u' :: a :: b :: c :: d :: rest =>
      match hexCode a b c d with
      | none => none
      | some code => if code.isValidChar then prepend (Char.ofNat code) (readBasic rest) else none
  | '\\' :: c :: rest =>
      match unescape c with
      | none => none
      | some plain => prepend plain (readBasic rest)
  | c :: rest =>
      if c = '"' then some ([], rest)
      else if isBasic c then prepend c (readBasic rest)
      else none

/-- A nonempty sequence of quoted keys with dots between them. -/
def readKeys : Nat → List Char → Option (List String × List Char)
  | 0, _ => none
  | _ + 1, [] => none
  | fuel + 1, c :: rest =>
      if c = '"' then do
        let (key, after) ← readBasic rest
        match skipBlank after with
        | '.' :: more =>
            let (keys, last) ← readKeys fuel (skipBlank more)
            some (String.ofList key :: keys, last)
        | text => some ([String.ofList key], text)
      else none

mutual

def readValue : Nat → List Char → Option (Json × List Char)
  | 0, _ => none
  | _ + 1, [] => none
  | fuel + 1, c :: rest =>
      if c = '"' then do
        let (text, after) ← readBasic rest
        some (.str (String.ofList text), after)
      else if c = '[' then
        match skipBlank rest with
        | ']' :: after => some (.arr [], after)
        | text => do
            let (items, after) ← readItems fuel text
            some (.arr items, after)
      else if c = 't' then (Json.stripPrefix ['r', 'u', 'e'] rest).map fun after => (.bool true, after)
      else if c = 'f' then (Json.stripPrefix ['a', 'l', 's', 'e'] rest).map fun after => (.bool false, after)
      else Json.parseNumber (c :: rest)

/-- A nonempty sequence of values up to the closing bracket. -/
def readItems : Nat → List Char → Option (List Json × List Char)
  | 0, _ => none
  | fuel + 1, text => do
      let (value, after) ← readValue fuel text
      match skipBlank after with
      | ',' :: more =>
          let (values, after) ← readItems fuel (skipBlank more)
          some (value :: values, after)
      | ']' :: after => some ([value], after)
      | _ => none

end

inductive Line where
  | header (path : List String)
  | element (path : List String)
  | entry (key : String) (value : Json)

/-- One line without its newline; a blank one says nothing. -/
def readLine (text : List Char) : Option (Option Line) :=
  match skipBlank text with
  | [] => some none
  | '[' :: '[' :: rest => do
      let (path, after) ← readKeys rest.length (skipBlank rest)
      match after with
      | ']' :: ']' :: last => if skipBlank last = [] then some (some (.element path)) else none
      | _ => none
  | '[' :: rest => do
      let (path, after) ← readKeys rest.length (skipBlank rest)
      match after with
      | ']' :: last => if skipBlank last = [] then some (some (.header path)) else none
      | _ => none
  | '"' :: rest => do
      let (key, after) ← readBasic rest
      match skipBlank after with
      | '=' :: more =>
          let (value, last) ← readValue (2 * more.length) (skipBlank more)
          if skipBlank last = [] then some (some (.entry (String.ofList key) value)) else none
      | _ => none
  | _ => none

/-- The lines of a text. -/
def splitLines : List Char → List (List Char)
  | [] => [[]]
  | c :: rest =>
      if c = '\n' then [] :: splitLines rest
      else
        match splitLines rest with
        | [] => [[c]]
        | line :: others => (c :: line) :: others

def readLines : List (List Char) → Option (List Line)
  | [] => some []
  | text :: rest => do
      let line ← readLine text
      let lines ← readLines rest
      some (line.toList ++ lines)

/-! ### Tables -/

/-- What a key is bound to while a document is read: a value, a table, which a header or only the header of a
table inside it has defined, or the tables of an array, the last of which is the current one. -/
inductive Node where
  | value (value : Json)
  | table (defined : Bool) (members : List (String × Node))
  | tables (earlier : List (List (String × Node))) (last : List (String × Node))

abbrev Nodes := List (String × Node)

/-- Change what a key is bound to. -/
def alter (key : String) (change : Option Node → Option Node) : Nodes → Option Nodes
  | [] => (change none).map fun node => [(key, node)]
  | (other, node) :: rest =>
      if other = key then (change (some node)).map fun node => (key, node) :: rest
      else (alter key change rest).map fun rest => (other, node) :: rest

/-- Change the table at a path; the tables on the way there come into being. -/
def within : List String → (Nodes → Option Nodes) → Nodes → Option Nodes
  | [], change, nodes => change nodes
  | key :: path, change, nodes =>
      alter key (fun node =>
        match node with
        | none => (within path change []).map (.table false)
        | some (.table defined members) => (within path change members).map (.table defined)
        | some (.tables earlier last) => (within path change last).map (.tables earlier)
        | some (.value _) => none) nodes

/-- A header defines its table once. -/
def define : Option Node → Option Node
  | none => some (.table true [])
  | some (.table false members) => some (.table true members)
  | _ => none

/-- The header of an array of tables starts another one. -/
def extend : Option Node → Option Node
  | none => some (.tables [] [])
  | some (.tables earlier last) => some (.tables (earlier ++ [last]) [])
  | _ => none

def bind (value : Json) : Option Node → Option Node
  | none => some (.value value)
  | some _ => none

/-- Change what the last key of a path is bound to. -/
def alterAt (path : List String) (change : Option Node → Option Node) (nodes : Nodes) : Option Nodes :=
  match path.getLast? with
  | none => none
  | some key => within path.dropLast (alter key change) nodes

/-- Read the lines of a document after those of the table at `current`. -/
def run : List String → List Line → Nodes → Option Nodes
  | _, [], nodes => some nodes
  | _, .header path :: rest, nodes => do
      let nodes ← alterAt path define nodes
      run path rest nodes
  | _, .element path :: rest, nodes => do
      let nodes ← alterAt path extend nodes
      run path rest nodes
  | current, .entry key value :: rest, nodes => do
      let nodes ← within current (alter key (bind value)) nodes
      run current rest nodes

mutual

def Node.toJson : Node → Json
  | .value value => value
  | .table _ members => .dict (membersOf members)
  | .tables earlier last => .arr (tablesOf earlier ++ [.dict (membersOf last)])

def membersOf : List (String × Node) → Members
  | [] => []
  | (key, node) :: rest => (key, node.toJson) :: membersOf rest

def tablesOf : List (List (String × Node)) → List Json
  | [] => []
  | members :: rest => .dict (membersOf members) :: tablesOf rest

end

/-- The dictionary that a text writes out. -/
def loads (text : List Char) : Option Json := do
  let lines ← readLines (splitLines text)
  let nodes ← run [] lines []
  some (.dict (membersOf nodes))

end Toml
