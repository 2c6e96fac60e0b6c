import FeatureRl.Lib.Pieces
import FeatureRl.Pipeline.Context

/-!
Retrieval of requested ranges from an admitted baseline archive, the locators of what was
retrieved, and its resolution from the locators alone.
-/

namespace FeatureRl

namespace Context

open Ranges

/-! ### Sources -/

structure GroundedSource where
  contextId : Identifier
  role : String
  source : ArtifactRef
  locator : Text
  text : Text
  provenanceLabel : String
  visible : source.visibility = .public ∨ source.visibility = .authoring
  permitted : source.kind.val ∉ ["SourcePair", "reference", "reference-tree"]
deriving DecidableEq

/-- The limits of the runtime under which an archive was read. -/
structure SourceLimits where
  maxArchiveBytes : Nat
  maxFiles : Nat
  maxSourceBytes : Nat

def expandedBytes (files : Dict String Bytes) : Nat := (files.values.map List.length).sum

/-- A baseline archive with its regular files, as read within the limits. -/
structure Baseline (limits : SourceLimits) where
  ref : ArtifactRef
  archiveBytes : Nat
  files : Dict String Bytes
  kind : ref.kind.val = "source-archive"
  encoding : ref.encoding = .bytes
  visible : ref.visibility = .public ∨ ref.visibility = .authoring
  archiveBound : archiveBytes ≤ limits.maxArchiveBytes
  fileBound : files.size ≤ limits.maxFiles
  expandedBound : expandedBytes files ≤ limits.maxSourceBytes
  safe : ∀ path ∈ files.keys, safePath path = true

structure RetrievalPolicy where
  allowedPaths : List String
  maxArchiveBytes : Nat
  maxFiles : Nat
  maxSelectedBytes : Nat
  maxSpans : Nat
  maxExpandedBytes : Nat

/-- The policy of the workflow for selected spans. -/
def workflowPolicy (limits : SourceLimits) (bounds : Bounds) (spans : List RetrievalRequest) : RetrievalPolicy where
  allowedPaths := spans.map RetrievalRequest.path
  maxArchiveBytes := limits.maxArchiveBytes
  maxFiles := limits.maxFiles
  maxSelectedBytes := bounds.maxBytes
  maxSpans := 4 * bounds.maxFiles
  maxExpandedBytes := limits.maxSourceBytes

/-! ### Locators -/

def formatRange (range : Range) : List Char := Nat.toDigits 10 range.1 ++ '-' :: Nat.toDigits 10 range.2

def formatLocator (path : String) (ranges : List Range) : String :=
  String.ofList (path.toList ++ ':' :: List.intercalate [','] (ranges.map formatRange))

/-- The text around the last separator. -/
def rpartition (separator : Char) (text : List Char) : Option (List Char × List Char) :=
  let tail := (text.reverse.takeWhile (· ≠ separator)).reverse
  if tail.length = text.length then none else some (text.take (text.length - tail.length - 1), tail)

def readNumber (text : List Char) : Option Nat :=
  if text ≠ [] && text.all Char.isDigit then some (Nat.ofDigitChars 10 text 0) else none

def readRange (text : List Char) : Option Range :=
  match text.dropWhile (· ≠ '-') with
  | [] => none
  | _ :: stop => do return (← readNumber (text.takeWhile (· ≠ '-')), ← readNumber stop)

/-- The path and the line ranges of a baseline locator. -/
def readLocator (locator : String) : Option (String × List Range) := do
  let (path, encoded) ← rpartition ':' locator.toList
  guard (path ≠ [] ∧ encoded ≠ [])
  let ranges ← (encoded.splitOn ',').mapM readRange
  return (String.ofList path, ranges)

/-! ### Retrieval -/

section

variable {limits : SourceLimits} (baseline : Baseline limits)

/-- The files of the archive, once the policy's own bounds have been checked again. -/
def archiveFiles (policy : RetrievalPolicy) : Option (Dict String Bytes) :=
  if policy.maxArchiveBytes < baseline.archiveBytes || policy.maxFiles < baseline.files.size ||
      policy.maxExpandedBytes < expandedBytes baseline.files || !baseline.files.keys.all safePath then none
  else some baseline.files

def ground (contextId locator text : String) : Option GroundedSource :=
  if valid : isIdentifier contextId = true ∧ isText locator = true ∧ isText text = true ∧
      baseline.ref.kind.val ∉ ["SourcePair", "reference", "reference-tree"] then
    some ⟨⟨contextId, valid.1⟩, "baseline", baseline.ref, ⟨locator, valid.2.1⟩, ⟨text, valid.2.2.1⟩,
      "existing_obligation", baseline.visible, valid.2.2.2⟩
  else none

def retrieveFrom (policy : RetrievalPolicy) (files : Dict String Bytes) :
    List RetrievalRequest → Nat → Option (List GroundedSource)
  | [], _ => some []
  | request :: rest, selectedBytes => do
      guard (request.path ∈ policy.allowedPaths)
      let lines ← (files.get? request.path).bind linesOf
      guard (request.lineRanges.all fun range => range.2 ≤ lines.length)
      let text := request.lineRanges.flatMap (chunk lines)
      let selectedBytes := selectedBytes + (Utf8.encode text).length
      guard (selectedBytes ≤ policy.maxSelectedBytes)
      let source ← ground baseline request.contextId (formatLocator request.path request.lineRanges)
        (String.ofList text)
      let sources ← retrieveFrom policy files rest selectedBytes
      return source :: sources

def retrieve (policy : RetrievalPolicy) (requests : List RetrievalRequest) : Option (List GroundedSource) := do
  guard (requests ≠ [] ∧ requests.all RetrievalRequest.valid)
  guard ((requests.map fun request => request.lineRanges.length).sum ≤ policy.maxSpans)
  guard (requests.map RetrievalRequest.contextId).Nodup
  let files ← archiveFiles baseline policy
  retrieveFrom baseline policy files requests 0

/-! ### Resolution -/

def requestOf (source : GroundedSource) : Option RetrievalRequest := do
  let (path, ranges) ← readLocator source.locator.val
  let request : RetrievalRequest := ⟨source.contextId.val, path, ranges⟩
  guard request.valid
  return request

/-- Resolve supplied sources; what is not of the baseline is read from its own artifact. -/
def resolve (policy : RetrievalPolicy) (other : GroundedSource → Option GroundedSource)
    (supplied : List GroundedSource) : Option (List GroundedSource) := do
  guard (supplied ≠ [] ∧ (supplied.map fun source => source.contextId.val).Nodup)
  let ofBaseline := supplied.filter fun source => source.source = baseline.ref
  let retrieved ← if ofBaseline = [] then some []
    else (ofBaseline.mapM requestOf).bind (retrieve baseline policy)
  let resolved ← supplied.mapM fun source =>
    if source.source = baseline.ref then
      retrieved.find? fun found => found.contextId.val = source.contextId.val
    else other source
  guard (resolved = supplied)
  return resolved

end

/-! ### Locators read back -/

theorem takeWhile_append_cons {test : Char → Bool} {front back : List Char} {stop : Char}
    (all : ∀ char ∈ front, test char = true) (ends : test stop = false) :
    (front ++ stop :: back).takeWhile test = front := by
  rw [List.takeWhile_append_of_pos all, List.takeWhile_cons_of_neg (by simp [ends]), List.append_nil]

theorem dropWhile_append_cons {test : Char → Bool} {front back : List Char} {stop : Char}
    (all : ∀ char ∈ front, test char = true) (ends : test stop = false) :
    (front ++ stop :: back).dropWhile test = stop :: back := by
  rw [List.dropWhile_append_of_pos all, List.dropWhile_cons_of_neg (by simp [ends])]

theorem rpartition_append {separator : Char} {front back : List Char} (absent : separator ∉ back) :
    rpartition separator (front ++ separator :: back) = some (front, back) := by
  have tail : ((front ++ separator :: back).reverse.takeWhile (· ≠ separator)).reverse = back := by
    rw [List.reverse_append, List.reverse_cons, List.append_assoc, List.singleton_append,
      takeWhile_append_cons, List.reverse_reverse]
    · intro char member
      have different : char ≠ separator := fun same => absent (same ▸ List.mem_reverse.mp member)
      simpa using different
    · simp
  have length : (front ++ separator :: back).length = front.length + 1 + back.length := by
    simp only [List.length_append, List.length_cons]
    omega
  simp only [rpartition, tail, length]
  rw [if_neg (by omega)]
  have front_length : front.length + 1 + back.length - back.length - 1 = front.length := by omega
  rw [front_length, List.take_left']
  rfl

theorem digit_ne_dash {char : Char} (digit : char.isDigit = true) : char ≠ '-' ∧ char ≠ ',' ∧ char ≠ ':' := by
  refine ⟨?_, ?_, ?_⟩ <;> rintro rfl <;> revert digit <;> decide

theorem isDigit_toDigits (count : Nat) : ∀ char ∈ Nat.toDigits 10 count, char.isDigit = true :=
  fun _ member => Nat.isDigit_of_mem_toDigits (by decide) (by decide) member

theorem readNumber_toDigits (count : Nat) : readNumber (Nat.toDigits 10 count) = some count := by
  have digits : (Nat.toDigits 10 count).all Char.isDigit = true :=
    List.all_eq_true.mpr (isDigit_toDigits count)
  have nonempty : Nat.toDigits 10 count ≠ [] := by
    rw [Nat.toDigits_eq_if (by decide)]
    split <;> simp
  rw [readNumber, if_pos (by simp [digits, nonempty]), Nat.ofDigitChars_toDigits (by decide) (by decide)]

theorem readRange_formatRange (range : Range) : readRange (formatRange range) = some range := by
  have digits : ∀ char ∈ Nat.toDigits 10 range.1, (decide (char ≠ '-')) = true := fun char member =>
    decide_eq_true (digit_ne_dash (isDigit_toDigits _ char member)).1
  rw [readRange, formatRange, dropWhile_append_cons digits (by decide)]
  simp only [takeWhile_append_cons digits (by decide : decide ('-' ≠ '-') = false), readNumber_toDigits]
  rfl

theorem notMem_formatRange {range : Range} {char : Char} (member : char ∈ formatRange range) :
    char ≠ ',' ∧ char ≠ ':' := by
  rcases List.mem_append.mp member with front | back
  · exact (digit_ne_dash (isDigit_toDigits _ char front)).2
  · rcases List.mem_cons.mp back with rfl | digits
    · decide
    · exact (digit_ne_dash (isDigit_toDigits _ char digits)).2

theorem mapM_readRange (ranges : List Range) : (ranges.map formatRange).mapM readRange = some ranges := by
  induction ranges with
  | nil => rfl
  | cons range rest ih => rw [List.map_cons, List.mapM_cons, readRange_formatRange, ih]; rfl

/-- The locator of a path and ranges reads back to both, whatever the path contains. -/
theorem readLocator_formatLocator {path : String} {ranges : List Range} (named : path ≠ "") (nonempty : ranges ≠ []) :
    readLocator (formatLocator path ranges) = some (path, ranges) := by
  have absent : ':' ∉ List.intercalate [','] (ranges.map formatRange) := by
    intro member
    rcases Pieces.mem_intercalate member with comma | ⟨text, inside, at_char⟩
    · exact absurd comma (by decide)
    · obtain ⟨range, _, rfl⟩ := List.mem_map.mp inside
      exact (notMem_formatRange at_char).2 rfl
  have fields : (List.intercalate [','] (ranges.map formatRange)).splitOn ',' = ranges.map formatRange := by
    apply List.splitOn_intercalate
    · intro text inside comma
      obtain ⟨range, _, rfl⟩ := List.mem_map.mp inside
      exact (notMem_formatRange comma).1 rfl
    · simpa using nonempty
  have encoded : List.intercalate [','] (ranges.map formatRange) ≠ [] := by
    intro empty
    rw [empty] at fields
    have single := congrArg (List.mapM readRange) fields
    rw [mapM_readRange] at single
    cases single
  have path_chars : path.toList ≠ [] := by simpa using named
  rw [readLocator, formatLocator, String.toList_ofList, rpartition_append absent]
  have numbers : ranges.mapM (readRange ∘ formatRange) = some ranges := by
    rw [← List.mapM_map, mapM_readRange]
  simp [path_chars, encoded, fields, numbers]

end Context

end FeatureRl
