import FeatureRl.Contracts.Values
import FeatureRl.Lib.Dict
import FeatureRl.Lib.Ranges
import Mathlib.Data.String.Basic

/-!
Source context of a request: candidate spans of every source file, taken greedily into a few
merged ranges of each file within the bounds on files, lines and bytes.
-/

namespace FeatureRl

namespace Context

open Ranges

/-! ### Lines -/

abbrev Line := List Char

def isBreak (char : Char) : Bool :=
  char.toNat ∈ [0x0a, 0x0b, 0x0c, 0x0d, 0x1c, 0x1d, 0x1e, 0x85, 0x2028, 0x2029]

def splitFrom (line : Line) : List Char → List Line
  | [] => if line = [] then [] else [line.reverse]
  | '\r' :: '\n' :: rest => line.reverse :: splitFrom [] rest
  | char :: rest => if isBreak char then line.reverse :: splitFrom [] rest else splitFrom (char :: line) rest

def splitlines (text : List Char) : List Line := splitFrom [] text

def linesOf (data : Bytes) : Option (List Line) := (Utf8.decode data).map splitlines

def join (lines : List Line) : List Char := List.intercalate ['\n'] lines

/-- The lines of a range, each closed by a line feed. -/
def chunk (lines : List Line) (range : Range) : List Char :=
  join ((lines.take range.2).drop (range.1 - 1)) ++ ['\n']

def byteSize (lines : List Line) (ranges : List Range) : Nat :=
  (ranges.map fun range => (Utf8.encode (chunk lines range)).length).sum

/-! ### Candidates -/

/-- A parsed definition with its priority before cutting. -/
structure Definition where
  start : Nat
  stop : Nat
  priority : Nat
  relevance : Nat
  formed : Formed (start, stop)

/-- How the words of the request rank text, and what an inert parse finds in a Python file. -/
structure Ranking where
  relevance : List Char → Nat
  definitions : String → Bytes → List Definition

structure Bounds where
  maxFiles : Nat
  maxLines : Nat
  maxBytes : Nat
  valid : (1 ≤ maxFiles ∧ maxFiles ≤ 32) ∧ (8 ≤ maxLines ∧ maxLines ≤ 512) ∧ 1 ≤ maxBytes ∧ maxBytes ≤ 524288

structure Candidate where
  path : String
  start : Nat
  stop : Nat
  priority : Nat
  relevance : Nat

def endsWith (path suffix : String) : Bool := suffix.toList.isSuffixOf path.toList

def codeSuffixes : List String :=
  [".py", ".pyi", ".js", ".jsx", ".ts", ".tsx", ".mjs", ".cjs", ".rs", ".go", ".c", ".h", ".cc", ".cpp", ".hpp",
    ".java", ".rb", ".php", ".swift", ".kt"]

def parts (path : List Char) : List (List Char) := path.splitOn '/'

section

local instance lawfulPart : LawfulBEq (List Char) := inferInstance

def pathPriority (path : String) : Nat :=
  let isCode := codeSuffixes.any fun suffix => endsWith path suffix
  let apart := (parts path.toList).dropLast.any fun part =>
    part ∈ ["test", "tests", "testing", "docs", "examples"].map String.toList
  if isCode && !apart then 80 else if isCode then 30 else 0

end

/-- The directory without its closing slashes. -/
def stripSlashes (root : List Char) : List Char := (root.reverse.dropWhile (· = '/')).reverse

def underRoot (path root : String) : Bool :=
  path = root || (stripSlashes root.toList ++ ['/']).isPrefixOf path.toList

section

variable (ranking : Ranking) (bounds : Bounds)

/-- A definition that is too long contributes its declaration. -/
def definitionCandidate (path : String) (definition : Definition) : Candidate :=
  if 2 * bounds.maxLines < definition.stop + 1 - definition.start then
    ⟨path, definition.start, min definition.stop (definition.start + min bounds.maxLines 48 - 1),
      min definition.priority (1800 + pathPriority path), definition.relevance⟩
  else ⟨path, definition.start, definition.stop, definition.priority, definition.relevance⟩

/-- The starts of windows around the centers, apart from each other and at most eight. -/
def windows (count : Nat) : List Nat → List Nat → List Nat
  | [], _ => []
  | center :: rest, taken =>
      let start := min (center - bounds.maxLines / 2) (count - bounds.maxLines)
      if taken.any fun prior => (start - prior) + (prior - start) < bounds.maxLines / 2 then
        windows count rest taken
      else start :: if 8 ≤ taken.length + 1 then [] else windows count rest (start :: taken)

def centers (lines : List Line) : List Nat :=
  Sorting.sortBy (fun index => toLex (-(ranking.relevance ((lines[index]?).getD []) : Int), index))
    (List.range lines.length)

def windowCandidate (path : String) (lines : List Line) (start : Nat) : Candidate :=
  let stop := min lines.length (start + bounds.maxLines)
  ⟨path, start + 1, stop, pathPriority path, ranking.relevance (join ((lines.take stop).drop start))⟩

def isPython (path : String) (data : Bytes) : Bool :=
  (endsWith path ".py" || endsWith path ".pyi") && data.length ≤ 2 * 1024 * 1024

def fileCandidates (path : String) (data : Bytes) (lines : List Line) : List Candidate :=
  (if isPython path data then (ranking.definitions path data).map (definitionCandidate bounds path) else []) ++
    (windows bounds lines.length (centers ranking lines) []).map (windowCandidate ranking bounds path lines)

/-- A file under the roots that is text and has lines. -/
def readable (roots : List String) (file : String × Bytes) : Option (String × Bytes × List Line) :=
  if roots.any fun root => underRoot file.1 root then
    (linesOf file.2).bind fun lines => if lines = [] then none else some (file.1, file.2, lines)
  else none

def readableFiles (source : Dict String Bytes) (roots : List String) : List (String × Bytes × List Line) :=
  (Sorting.sortBy Prod.fst source.entries).filterMap (readable roots)

def candidates (source : Dict String Bytes) (roots : List String) : List Candidate :=
  (readableFiles source roots).flatMap fun file => fileCandidates ranking bounds file.1 file.2.1 file.2.2

def order (candidate : Candidate) : Int ×ₗ Int ×ₗ Nat ×ₗ String ×ₗ Nat ×ₗ Nat :=
  toLex (-(candidate.priority : Int), toLex (-(candidate.relevance : Int),
    toLex (candidate.stop - candidate.start, toLex (candidate.path, toLex (candidate.start, candidate.stop)))))

/-! ### Selection -/

structure Selection where
  ranges : Dict String (List Range)
  sizes : Dict String Nat
  total : Int

/-- Take a candidate into its file's ranges unless a bound forbids it. -/
def consider (lines : String → List Line) (selection : Selection) (candidate : Candidate) : Selection :=
  let previous := selection.ranges.get? candidate.path
  if previous.isNone && bounds.maxFiles ≤ selection.ranges.size then selection
  else
    let ranges := merge (previous.getD [] ++ [(candidate.start, candidate.stop)])
    if ranges = previous.getD [] || 4 < ranges.length || 2 * bounds.maxLines < Ranges.size ranges then selection
    else
      let size := byteSize (lines candidate.path) ranges
      let change : Int := size - ((selection.sizes.get? candidate.path).getD 0 : Nat)
      if (bounds.maxBytes : Int) < selection.total + change then selection
      else ⟨selection.ranges.set candidate.path ranges, selection.sizes.set candidate.path size,
        selection.total + change⟩

/-- The lines of a source file; there are none where the file is no text. -/
def sourceLines (source : Dict String Bytes) (path : String) : List Line :=
  ((source.get? path).bind linesOf).getD []

def select (source : Dict String Bytes) (roots : List String) : Selection :=
  (Sorting.sortBy order (candidates ranking bounds source roots)).foldl (consider bounds (sourceLines source))
    ⟨.empty, .empty, 0⟩

end

/-! ### Requests -/

structure RetrievalRequest where
  contextId : String
  path : String
  lineRanges : List Range
deriving DecidableEq

/-- A relative path that stays inside its root. -/
def safePath (path : String) : Bool :=
  let names := (parts path.toList).filter fun part => part ≠ [] && part ≠ ['.']
  path.toList.all (fun char => char ≠ '\\' && char.toNat ≠ 0) && path.toList.head? ≠ some '/' && names ≠ [] &&
    names.all fun part => part ≠ ['.', '.']

/-- Increasing ranges of positive numbers. -/
def orderedFrom (previousEnd : Nat) : List Range → Bool
  | [] => true
  | (start, stop) :: rest => 1 ≤ start && start ≤ stop && previousEnd < start && orderedFrom stop rest

def RetrievalRequest.valid (request : RetrievalRequest) : Bool :=
  isText request.contextId && isText request.path && !request.lineRanges.isEmpty && safePath request.path &&
    orderedFrom 0 request.lineRanges

def contextName (index : Nat) : String := "B_" ++ String.ofList (Nat.toDigits 10 index)

def requestsOf (selection : Selection) : List RetrievalRequest :=
  selection.ranges.entries.mapIdx fun index entry => ⟨contextName (index + 1), entry.1, entry.2⟩

/-- One request for each file; a file whose path is no safe text stops the selection. -/
def selectSourceSpans (ranking : Ranking) (bounds : Bounds) (source : Dict String Bytes) (roots : List String) :
    Option (List RetrievalRequest) :=
  let requests := requestsOf (select ranking bounds source roots)
  if requests = [] then none
  else if requests.all RetrievalRequest.valid then some requests
  else none

end Context

end FeatureRl
