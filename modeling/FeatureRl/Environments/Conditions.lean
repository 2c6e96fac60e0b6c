import FeatureRl.Lib.Pieces
import FeatureRl.Lib.PyText

/-!
Conditions of workflow jobs and steps: when the analysis takes one as false on Linux, and what a condition of
operands, negations, conjunctions and alternatives says on a runner.
-/

namespace FeatureRl

open Pieces (trim split holds Clean)

namespace CiText

def isSpace (c : Char) : Bool := PyChar.isSpace (.scalar c)

def strip (text : List Char) : List Char := trim isSpace text

def skip (text : List Char) : List Char := text.dropWhile isSpace

def isQuote (c : Char) : Bool := c = '"' || c = '\''

/-- The blanks and parentheses around a comparison. -/
def isMark (c : Char) : Bool := c = '(' || c = ')' || c = ' '

/-- What Python knows of each character: its lower case, and whether it belongs to words. -/
structure Unicode where
  lower : Char → List Char
  word : Char → Bool

/-! ### Reading a clause -/

inductive Subject where
  | runner
  | matrix
deriving DecidableEq

def subject (text : List Char) : Option (Subject × List Char) :=
  match ("runner.os".toList.isPrefixOf? text) with
  | some rest => some (.runner, rest)
  | none => ("matrix.os".toList.isPrefixOf? text).map fun rest => (.matrix, rest)

/-- `==` is true and `!=` is false. -/
def operator : List Char → Option (Bool × List Char)
  | '=' :: '=' :: rest => some (true, rest)
  | '!' :: '=' :: rest => some (false, rest)
  | _ => none

/-- A nonempty text between two equal quotes that holds no quote; nothing follows it. -/
def quoted : List Char → Option (List Char)
  | [] => none
  | quote :: rest =>
      let value := rest.takeWhile fun c => !isQuote c
      if isQuote quote = true ∧ value ≠ [] ∧ rest.dropWhile (fun c => !isQuote c) = [quote] then some value
      else none

structure Comparison where
  subject : Subject
  equal : Bool
  value : List Char

def comparison (clause : List Char) : Option Comparison := do
  let (subject, rest) ← subject clause
  let (equal, rest) ← operator (skip rest)
  let value ← quoted (skip rest)
  some ⟨subject, equal, value⟩

structure Call where
  starts : Bool
  subject : Subject
  value : List Char

def name (text : List Char) : Option (Bool × List Char) :=
  match ("startsWith(".toList.isPrefixOf? text) with
  | some rest => some (true, rest)
  | none => ("contains(".toList.isPrefixOf? text).map fun rest => (false, rest)

/-- A call up to its last argument. -/
def callBody (clause : List Char) : Option Call := do
  let (starts, rest) ← name clause
  let (subject, rest) ← subject (skip rest)
  let rest ← [','].isPrefixOf? (skip rest)
  let value ← quoted (skip rest)
  some ⟨starts, subject, value⟩

def call (clause : List Char) : Option Call :=
  if clause.getLast? = some ')' then callBody (clause.dropLast.rdropWhile isSpace) else none

/-! ### The analysis -/

def tokenChar (c : Char) : Bool := ('a' ≤ c && c ≤ 'z') || ('0' ≤ c && c ≤ '9') || c = '_' || c = '-'

def findTokens (text : List Char) : List (List Char) := (text.splitOnP fun c => !tokenChar c).filter (· ≠ [])

def expressions : List (List Char) :=
  ["$\x7b".toList, "matrix.".toList, "runner.".toList, "parameters.".toList, "variables.".toList]

def linuxNames : List (List Char) := ["linux".toList, "ubuntu".toList, "debian".toList]

def otherNames : List (List Char) := ["macos".toList, "osx".toList, "windows".toList, "win32".toList]

def unquoted : List Char → List Char
  | [] => []
  | quote :: rest =>
      if isQuote quote = true ∧ rest.getLast? = some quote then strip rest.dropLast else quote :: rest

/-- A condition without its quotes and without the braces of an expression. -/
def unwrap (value : List Char) : List Char :=
  let value := unquoted (strip value)
  if "$\x7b\x7b".toList <+: value ∧ "\x7d\x7d".toList <:+ value then strip (value.drop 3).dropLast.dropLast
  else value

section

variable (unicode : Unicode)

def lower (text : List Char) : List Char := text.flatMap unicode.lower

def nonLinux (value : List Char) : Bool :=
  let value := lower unicode (trim isQuote (strip value))
  if expressions.any fun token => decide (token <:+: value) then false
  else
    let tokens := findTokens value
    let linux := tokens.any fun token => linuxNames.any fun name => name.isPrefixOf token
    let other := tokens.any fun token => otherNames.any fun name => name.isPrefixOf token
    other && !linux

/-- Whether the word `or` stands in a text; `boundary` says that no word goes on before it. -/
def searchOr (boundary : Bool) : List Char → Bool
  | [] => false
  | c :: rest =>
      (boundary && decide ("or".toList <+: c :: rest) &&
          ((rest.drop 1).head?.all fun next => !unicode.word next)) ||
        searchOr (!unicode.word c) rest

def clauseFalse (clause : List Char) : Bool :=
  (match call clause with
    | some found => nonLinux unicode found.value
    | none => false) ||
    match comparison (trim isMark clause) with
    | some found => if found.equal then nonLinux unicode found.value else lower unicode found.value = "linux".toList
    | none => false

/-- The clauses between the ampersands; the blanks around them are stripped with the clauses. -/
def conjunctionFalse (value : List Char) : Bool :=
  if searchOr unicode true value then false
  else (split '&' value).any fun clause => clauseFalse unicode (strip clause)

/-- The source asks the same of every alternative; `falseOnLinux_alternatives` says so. -/
def falseOnLinux (value : List Char) : Bool :=
  let value := unwrap value
  if holds '|' value then (split '|' value).all fun clause => conjunctionFalse unicode (unwrap clause)
  else conjunctionFalse unicode value

end

/-! ### Conditions -/

abbrev Blanks := {text : List Char // ∀ c ∈ text, isSpace c = true}

/-- The text of an operand holds neither `&&` nor `||` and ends in no half of one. -/
abbrev Operand := {text : List Char // Clean '|' text ∧ Clean '&' text}

inductive Condition where
  | operand (text : Operand)
  | negation (inner : Condition)
  | both (left right : Condition)
  | either (left right : Condition)
  | group (before after : Blanks) (inner : Condition)

namespace Condition

def text : Condition → List Char
  | operand text => text.val
  | negation inner => '!' :: '(' :: (inner.text ++ [')'])
  | both left right => left.text ++ '&' :: '&' :: right.text
  | either left right => left.text ++ '|' :: '|' :: right.text
  | group before after inner => before.val ++ '(' :: (inner.text ++ ')' :: after.val)

end Condition

/-- What the two operating system names are on a runner. -/
structure Labels where
  runner : List Char
  matrix : List Char

def Labels.of (labels : Labels) : Subject → List Char
  | .runner => labels.runner
  | .matrix => labels.matrix

section

variable (unicode : Unicode) (labels : Labels)

/-- Texts are compared without regard to case. -/
def Comparison.eval (found : Comparison) : Bool :=
  decide (lower unicode (labels.of found.subject) = lower unicode found.value) = found.equal

def Call.eval (found : Call) : Bool :=
  if found.starts then lower unicode found.value <+: lower unicode (labels.of found.subject)
  else lower unicode found.value <:+: lower unicode (labels.of found.subject)

/-- The characters at the ends of an operand that say nothing. -/
def isEdge (c : Char) : Bool := isSpace c || isMark c

/-- An operand that asks for an operating system has its answer; every other one has any value. -/
def evalOperand (atoms : List Char → Bool) (text : List Char) : Bool :=
  match comparison (trim isEdge text) with
  | some found => found.eval unicode labels
  | none =>
    match callBody (trim isEdge text) with
    | some found => found.eval unicode labels
    | none => atoms (trim isEdge text)

def Condition.eval (atoms : List Char → Bool) : Condition → Bool
  | .operand text => evalOperand unicode labels atoms text.val
  | .negation inner => !inner.eval atoms
  | .both left right => left.eval atoms && right.eval atoms
  | .either left right => left.eval atoms || right.eval atoms
  | .group _ _ inner => inner.eval atoms

/-- A runner of Linux: its label, whatever it is, names no other system. -/
structure Linux : Prop where
  runner : lower unicode labels.runner = "linux".toList
  matrix : ∀ name ∈ otherNames, ¬ name <:+: lower unicode labels.matrix

end

end CiText

end FeatureRl
