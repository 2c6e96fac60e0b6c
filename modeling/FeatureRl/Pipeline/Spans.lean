import FeatureRl.Contracts.Samples
import FeatureRl.Pipeline.Retrieval
import Mathlib.Algebra.BigOperators.Group.List.Basic

/-!
Selection, retrieval and resolution of source spans agree: the selected ranges keep their bounds,
and what is retrieved resolves to itself.
-/

namespace FeatureRl

namespace Context

open Ranges

section

/-! ### Candidates -/

variable {ranking : Ranking} {bounds : Bounds}

def Candidate.range (candidate : Candidate) : Range := (candidate.start, candidate.stop)

theorem formed_definitionCandidate (path : String) (definition : Definition) :
    Formed (definitionCandidate bounds path definition).range := by
  obtain ⟨positive, ordered⟩ := definition.formed
  have lines := bounds.valid.2.1.1
  simp only at positive ordered
  rw [definitionCandidate]
  split
  next =>
    refine ⟨positive, ?_⟩
    simp only [Candidate.range]
    omega
  next => exact ⟨positive, ordered⟩

theorem mem_windows {count start : Nat} {remaining taken : List Nat}
    (member : start ∈ windows bounds count remaining taken) : ∃ center ∈ remaining, start ≤ center := by
  induction remaining generalizing taken with
  | nil => cases member
  | cons center rest ih =>
      simp only [windows] at member
      split at member
      next =>
        obtain ⟨found, inside, below⟩ := ih member
        exact ⟨found, List.mem_cons_of_mem _ inside, below⟩
      next =>
        rcases List.mem_cons.mp member with rfl | later
        · exact ⟨center, List.mem_cons_self, by omega⟩
        · split at later
          next => cases later
          next =>
            obtain ⟨found, inside, below⟩ := ih later
            exact ⟨found, List.mem_cons_of_mem _ inside, below⟩

theorem formed_windowCandidate {path : String} {lines : List Line} {start : Nat}
    (member : start ∈ windows bounds lines.length (centers ranking lines) []) :
    Formed (windowCandidate ranking bounds path lines start).range := by
  obtain ⟨center, inside, below⟩ := mem_windows member
  have short : center < lines.length := List.mem_range.mp (Sorting.mem_sortBy.mp inside)
  have width := bounds.valid.2.1.1
  simp only [windowCandidate, Candidate.range, Formed]
  omega

theorem formed_candidates {source : Dict String Bytes} {roots : List String} {candidate : Candidate}
    (member : candidate ∈ candidates ranking bounds source roots) : Formed candidate.range := by
  simp only [candidates, List.mem_flatMap] at member
  obtain ⟨⟨path, data, lines⟩, _, inside⟩ := member
  rcases List.mem_append.mp inside with parsed | window
  · split at parsed
    next =>
      obtain ⟨definition, _, rfl⟩ := List.mem_map.mp parsed
      exact formed_definitionCandidate path definition
    next => cases parsed
  · obtain ⟨start, found, rfl⟩ := List.mem_map.mp window
    exact formed_windowCandidate found

/-! ### Selection -/

structure Kept (bounds : Bounds) (lines : String → List Line) (selection : Selection) : Prop where
  ranges : ∀ path ranges, selection.ranges.get? path = some ranges →
    Separated ranges ∧ ranges ≠ [] ∧ ranges.length ≤ 4 ∧ Ranges.size ranges ≤ 2 * bounds.maxLines
  sizes : ∀ path, selection.sizes.get? path = (selection.ranges.get? path).map (byteSize (lines path))
  total : selection.total = (selection.ranges.entries.map fun entry => (byteSize (lines entry.1) entry.2 : Int)).sum
  files : selection.ranges.size ≤ bounds.maxFiles
  bytes : selection.total ≤ bounds.maxBytes

theorem sum_setEntries {α : Type} (weight : String × α → Int) (key : String) (value : α)
    (entries : List (String × α)) :
    ((Dict.setEntries key value entries).map weight).sum =
      (entries.map weight).sum - ((entries.lookup key).map fun old => weight (key, old)).getD 0 +
        weight (key, value) := by
  induction entries with
  | nil => simp [Dict.setEntries]
  | cons entry rest ih =>
      obtain ⟨name, old⟩ := entry
      simp only [Dict.setEntries]
      by_cases same : name = key
      · subst same
        simp only [if_pos, List.map_cons, List.sum_cons, List.lookup_cons_self, Option.map_some, Option.getD_some]
        omega
      · rw [if_neg same, List.map_cons, List.sum_cons, ih, Dict.lookup_cons_of_ne (Ne.symm same), List.map_cons,
          List.sum_cons]
        omega

theorem Kept.consider {lines : String → List Line} {selection : Selection} {candidate : Candidate}
    (kept : Kept bounds lines selection) (formed : Formed candidate.range) :
    Kept bounds lines (consider bounds lines selection candidate) := by
  rw [Context.consider]
  simp only
  split
  next => exact kept
  next room =>
    split
    next => exact kept
    next fits =>
      split
      next => exact kept
      next small =>
        simp only [Bool.or_eq_true, decide_eq_true_eq, not_or, Nat.not_lt] at fits
        obtain ⟨⟨_, count⟩, covered⟩ := fits
        have before : ∀ range ∈ (selection.ranges.get? candidate.path).getD [], Formed range := by
          cases found : selection.ranges.get? candidate.path with
          | none => simp
          | some ranges => exact (kept.ranges _ _ found).1.formed
        have separated : Separated (merge ((selection.ranges.get? candidate.path).getD [] ++
            [(candidate.start, candidate.stop)])) := by
          apply separated_merge
          intro range member
          rcases List.mem_append.mp member with old | new
          · exact before range old
          · obtain rfl := List.mem_singleton.mp new
            exact formed
        have size : selection.sizes.get? candidate.path = _ := kept.sizes candidate.path
        constructor
        · intro path ranges found
          rw [Dict.get?_set] at found
          split at found
          next =>
            obtain rfl := Option.some.inj found
            exact ⟨separated, merge_ne_nil (by simp), count, covered⟩
          next => exact kept.ranges path ranges found
        · intro path
          rw [Dict.get?_set, Dict.get?_set]
          split
          next same =>
            subst same
            rfl
          next => exact kept.sizes path
        · have sum := sum_setEntries (fun entry => (byteSize (lines entry.1) entry.2 : Int)) candidate.path
            (merge ((selection.ranges.get? candidate.path).getD [] ++ [(candidate.start, candidate.stop)]))
            selection.ranges.entries
          refine Eq.trans ?_ sum.symm
          have old : (((selection.sizes.get? candidate.path).getD 0 : Nat) : Int) =
              ((selection.ranges.entries.lookup candidate.path).map fun ranges =>
                (byteSize (lines candidate.path) ranges : Int)).getD 0 := by
            rw [size]
            change _ = (Option.map _ (selection.ranges.get? candidate.path)).getD 0
            cases selection.ranges.get? candidate.path <;> rfl
          simp only [old, kept.total]
          omega
        · cases found : selection.ranges.get? candidate.path with
          | none =>
              simp only [found, Option.isNone_none, Bool.true_and, decide_eq_true_eq, Nat.not_le] at room
              rw [Dict.size_set_of_absent found]
              exact room
          | some old =>
              rw [Dict.size_set_of_present found]
              exact kept.files
        · exact Int.not_lt.mp small

theorem Kept.foldl {lines : String → List Line} {selection : Selection} {ordered : List Candidate}
    (kept : Kept bounds lines selection) (formed : ∀ candidate ∈ ordered, Formed candidate.range) :
    Kept bounds lines (ordered.foldl (Context.consider bounds lines) selection) := by
  induction ordered generalizing selection with
  | nil => exact kept
  | cons candidate rest ih =>
      exact ih (kept.consider (formed candidate List.mem_cons_self))
        fun other member => formed other (List.mem_cons_of_mem _ member)

theorem kept_select (source : Dict String Bytes) (roots : List String) :
    Kept bounds (sourceLines source) (select ranking bounds source roots) := by
  apply Kept.foldl
  · exact ⟨by simp, by simp, rfl, Nat.zero_le _, Int.natCast_nonneg _⟩
  · exact fun candidate member => formed_candidates (Sorting.mem_sortBy.mp member)

/-! ### Selected files -/

theorem keys_consider {lines : String → List Line} {known : String → Prop} {selection : Selection}
    {candidate : Candidate} (before : ∀ path ∈ selection.ranges.keys, known path) (here : known candidate.path) :
    ∀ path ∈ (Context.consider bounds lines selection candidate).ranges.keys, known path := by
  rw [Context.consider]
  simp only
  split
  next => exact before
  next =>
    split
    next => exact before
    next =>
      split
      next => exact before
      next =>
        intro path member
        rcases (Dict.mem_keys_set _ _ _ _).mp member with rfl | old
        · exact here
        · exact before path old

theorem keys_foldl {lines : String → List Line} {known : String → Prop} {selection : Selection}
    {ordered : List Candidate} (before : ∀ path ∈ selection.ranges.keys, known path)
    (all : ∀ candidate ∈ ordered, known candidate.path) :
    ∀ path ∈ (ordered.foldl (Context.consider bounds lines) selection).ranges.keys, known path := by
  induction ordered generalizing selection with
  | nil => exact before
  | cons candidate rest ih =>
      exact ih (keys_consider before (all candidate List.mem_cons_self))
        fun other member => all other (List.mem_cons_of_mem _ member)

def Readable (source : Dict String Bytes) (path : String) : Prop :=
  ∃ lines, (source.get? path).bind linesOf = some lines

theorem readable_candidates {source : Dict String Bytes} {roots : List String} {candidate : Candidate}
    (member : candidate ∈ candidates ranking bounds source roots) : Readable source candidate.path := by
  simp only [candidates, List.mem_flatMap] at member
  obtain ⟨⟨path, data, lines⟩, listed, inside⟩ := member
  obtain ⟨⟨name, bytes⟩, entry, read⟩ := List.mem_filterMap.mp listed
  have found := Dict.mem_entries.mp (Sorting.mem_sortBy.mp entry)
  have same : candidate.path = path := by
    rcases List.mem_append.mp inside with parsed | window
    · split at parsed
      next =>
        obtain ⟨definition, _, rfl⟩ := List.mem_map.mp parsed
        rw [definitionCandidate]
        split <;> rfl
      next => cases parsed
    · obtain ⟨start, _, rfl⟩ := List.mem_map.mp window
      rfl
  rw [readable] at read
  split at read
  next =>
    obtain ⟨split, decoded, kept⟩ := Option.bind_eq_some_iff.mp read
    by_cases empty : split = []
    · rw [if_pos empty] at kept
      cases kept
    · rw [if_neg empty] at kept
      obtain ⟨rfl, rfl, rfl⟩ : name = path ∧ bytes = data ∧ split = lines := by simpa using kept
      exact ⟨split, by rw [same, found]; exact decoded⟩
  next => cases read

theorem readable_select {source : Dict String Bytes} {roots : List String} {path : String}
    (member : path ∈ (select ranking bounds source roots).ranges.keys) : Readable source path :=
  keys_foldl (by simp) (fun _ inside => readable_candidates (Sorting.mem_sortBy.mp inside)) path member

/-! ### Requests -/

theorem mem_requestsOf {selection : Selection} {request : RetrievalRequest} (member : request ∈ requestsOf selection) :
    selection.ranges.get? request.path = some request.lineRanges ∧ ∃ index, request.contextId = contextName index := by
  obtain ⟨index, short, rfl⟩ := List.mem_mapIdx.mp member
  exact ⟨Dict.mem_entries.mp (List.getElem_mem short), index + 1, rfl⟩

theorem map_requestsOf {α : Type} (selection : Selection) (weight : String → List Range → α) :
    (requestsOf selection).map (fun request => weight request.path request.lineRanges) =
      selection.ranges.entries.map fun entry => weight entry.1 entry.2 := by
  apply List.ext_getElem
  · simp [requestsOf]
  · intro index first second
    simp [requestsOf]

theorem contextName_injective : Function.Injective contextName := by
  intro one two same
  have chars := congrArg String.toList same
  simp only [contextName, String.toList_append, String.toList_ofList, List.append_cancel_left_eq] at chars
  have numbers := congrArg (Nat.ofDigitChars 10 · 0) chars
  simpa [Nat.ofDigitChars_toDigits] using numbers

theorem nodup_contextIds (selection : Selection) :
    ((requestsOf selection).map RetrievalRequest.contextId).Nodup := by
  have names : (requestsOf selection).map RetrievalRequest.contextId =
      (List.range selection.ranges.entries.length).map fun index => contextName (index + 1) := by
    apply List.ext_getElem
    · simp [requestsOf]
    · intro index first second
      simp [requestsOf]
  rw [names]
  refine List.nodup_range.map fun one two same => ?_
  have equal := contextName_injective same
  omega

theorem isIdentifier_contextName (index : Nat) : isIdentifier (contextName index) = true := by
  have digits : (Nat.toDigits 10 index).all (fun c => isAlphanumeric c || decide (c ∈ ['_', '.', '-'])) = true := by
    refine List.all_eq_true.mpr fun char member => ?_
    have digit := isDigit_toDigits index char member
    simp only [Char.isDigit, Bool.and_eq_true, decide_eq_true_eq] at digit
    have lower : '0' ≤ char := digit.1
    have upper : char ≤ '9' := digit.2
    simp [isAlphanumeric, lower, upper]
  have chars : (contextName index).toList = 'B' :: '_' :: Nat.toDigits 10 index := by
    simp [contextName]
  rw [isIdentifier, isWord, chars]
  simp only [List.all_cons, digits]
  decide

theorem isText_formatLocator (path : String) (ranges : List Range) : isText (formatLocator path ranges) = true := by
  rw [isText, formatLocator, String.toList_ofList]
  exact List.any_eq_true.mpr ⟨':', by simp, by decide⟩

/-! ### Bounds -/

theorem cast_sum (weights : List Nat) : (weights.sum : Int) = (weights.map fun weight : Nat => (weight : Int)).sum := by
  induction weights with
  | nil => rfl
  | cons weight rest ih => rw [List.sum_cons, List.map_cons, List.sum_cons, Int.natCast_add, ih]

/-- The bounds of selected spans. -/
structure Bounded (bounds : Bounds) (source : Dict String Bytes) (spans : List RetrievalRequest) : Prop where
  apart : ∀ span ∈ spans, Separated span.lineRanges
  count : ∀ span ∈ spans, span.lineRanges.length ≤ 4
  lines : ∀ span ∈ spans, Ranges.size span.lineRanges ≤ 2 * bounds.maxLines
  files : spans.length ≤ bounds.maxFiles
  bytes : (spans.map fun span => byteSize (sourceLines source span.path) span.lineRanges).sum ≤ bounds.maxBytes

variable {source : Dict String Bytes} {roots : List String} {spans : List RetrievalRequest}

theorem spans_eq (returned : selectSourceSpans ranking bounds source roots = some spans) :
    spans = requestsOf (select ranking bounds source roots) ∧ spans ≠ [] ∧
      spans.all RetrievalRequest.valid = true := by
  simp only [selectSourceSpans] at returned
  split at returned
  next => cases returned
  next nonempty =>
    split at returned
    next valid =>
      obtain rfl := Option.some.inj returned
      exact ⟨rfl, nonempty, valid⟩
    next => cases returned

theorem bounded_spans (returned : selectSourceSpans ranking bounds source roots = some spans) :
    Bounded bounds source spans := by
  obtain ⟨rfl, _, _⟩ := spans_eq returned
  have kept := @kept_select ranking bounds source roots
  constructor
  · exact fun span member => (kept.ranges _ _ (mem_requestsOf member).1).1
  · exact fun span member => (kept.ranges _ _ (mem_requestsOf member).1).2.2.1
  · exact fun span member => (kept.ranges _ _ (mem_requestsOf member).1).2.2.2
  · have length : (requestsOf (select ranking bounds source roots)).length =
        (select ranking bounds source roots).ranges.size := by
      simp [requestsOf, Dict.size]
    rw [length]
    exact kept.files
  · have bytes := kept.bytes
    rw [kept.total] at bytes
    rw [map_requestsOf _ fun path ranges => byteSize (sourceLines source path) ranges]
    have cast : (((select ranking bounds source roots).ranges.entries.map fun entry =>
        byteSize (sourceLines source entry.1) entry.2).sum : Int) =
        ((select ranking bounds source roots).ranges.entries.map fun entry =>
          (byteSize (sourceLines source entry.1) entry.2 : Int)).sum := by
      rw [cast_sum, List.map_map]
      rfl
    omega

theorem nodup_paths (returned : selectSourceSpans ranking bounds source roots = some spans) :
    (spans.map RetrievalRequest.path).Nodup := by
  obtain ⟨rfl, _, _⟩ := spans_eq returned
  rw [map_requestsOf _ fun path _ => path]
  exact (select ranking bounds source roots).ranges.nodup

/-! ### Retrieval -/

def textOf (source : Dict String Bytes) (span : RetrievalRequest) : String :=
  String.ofList (span.lineRanges.flatMap (chunk (sourceLines source span.path)))

/-- The selected lines are lines of the file, and not all blank. -/
def Legible (source : Dict String Bytes) (span : RetrievalRequest) : Prop :=
  (∀ range ∈ span.lineRanges, range.2 ≤ (sourceLines source span.path).length) ∧ isText (textOf source span) = true

theorem length_flatMap_chunk (lines : List Line) (ranges : List Range) :
    (Utf8.encode (ranges.flatMap (chunk lines))).length = byteSize lines ranges := by
  induction ranges with
  | nil => rfl
  | cons range rest ih =>
      rw [List.flatMap_cons, Utf8.encode_append, List.length_append, ih, byteSize, byteSize, List.map_cons,
        List.sum_cons]

variable {limits : SourceLimits} {baseline : Baseline limits} {policy : RetrievalPolicy}

/-- The source that a request retrieves. -/
structure Matches (baseline : Baseline limits) (found : GroundedSource) (request : RetrievalRequest) : Prop where
  contextId : found.contextId.val = request.contextId
  source : found.source = baseline.ref
  locator : found.locator.val = formatLocator request.path request.lineRanges

theorem sourceLines_eq {path : String} {lines : List Line} (read : (source.get? path).bind linesOf = some lines) :
    sourceLines source path = lines := by
  rw [sourceLines, read, Option.getD_some]

theorem retrieveFrom_some {requests : List RetrievalRequest} {used : Nat}
    (allowed : ∀ request ∈ requests, request.path ∈ policy.allowedPaths)
    (present : ∀ request ∈ requests, Readable source request.path)
    (legible : ∀ request ∈ requests, Legible source request)
    (named : ∀ request ∈ requests, isIdentifier request.contextId = true)
    (bytes : used + (requests.map fun request =>
      byteSize (sourceLines source request.path) request.lineRanges).sum ≤ policy.maxSelectedBytes) :
    ∃ sources, retrieveFrom baseline policy source requests used = some sources ∧
      List.Forall₂ (Matches baseline) sources requests := by
  induction requests generalizing used with
  | nil => exact ⟨[], rfl, .nil⟩
  | cons request rest ih =>
      rw [List.map_cons, List.sum_cons] at bytes
      obtain ⟨lines, read⟩ := present request List.mem_cons_self
      have same := sourceLines_eq read
      obtain ⟨inside, text⟩ := legible request List.mem_cons_self
      rw [textOf, same] at text
      rw [same] at bytes inside
      obtain ⟨sources, rest_retrieved, matched⟩ := @ih (used + byteSize lines request.lineRanges)
        (fun other member => allowed other (List.mem_cons_of_mem _ member))
        (fun other member => present other (List.mem_cons_of_mem _ member))
        (fun other member => legible other (List.mem_cons_of_mem _ member))
        (fun other member => named other (List.mem_cons_of_mem _ member)) (by omega)
      have kind : baseline.ref.kind.val ∉ ["SourcePair", "reference", "reference-tree"] := by
        rw [baseline.kind]
        decide
      have valid : isIdentifier request.contextId = true ∧
          isText (formatLocator request.path request.lineRanges) = true ∧
          isText (String.ofList (request.lineRanges.flatMap (chunk lines))) = true ∧
          baseline.ref.kind.val ∉ ["SourcePair", "reference", "reference-tree"] :=
        ⟨named request List.mem_cons_self, isText_formatLocator _ _, text, kind⟩
      let found : GroundedSource := ⟨⟨request.contextId, valid.1⟩, "baseline", baseline.ref, ⟨_, valid.2.1⟩,
        ⟨_, valid.2.2.1⟩, "existing_obligation", baseline.visible, valid.2.2.2⟩
      refine ⟨found :: sources, ?_, .cons ⟨rfl, rfl, rfl⟩ matched⟩
      rw [retrieveFrom]
      have fits : used + byteSize lines request.lineRanges ≤ policy.maxSelectedBytes := by omega
      have ends : (request.lineRanges.all fun range => range.2 ≤ lines.length) = true := by
        simpa using inside
      simp only [allowed request List.mem_cons_self, read, ends, length_flatMap_chunk, fits, ground, dif_pos valid,
        rest_retrieved, guard_true, Option.bind_eq_bind, Option.bind_some]
      rfl

theorem of_guard {condition : Prop} [Decidable condition] {value : Unit}
    (passed : (guard condition : Option Unit) = some value) : condition := by
  by_contra fails
  rw [guard, if_neg fails] at passed
  cases passed

theorem legible_of_retrieveFrom {requests : List RetrievalRequest} {used : Nat} {sources : List GroundedSource}
    (retrieved : retrieveFrom baseline policy source requests used = some sources) :
    ∀ request ∈ requests, Legible source request := by
  induction requests generalizing used sources with
  | nil => simp
  | cons request rest ih =>
      rw [retrieveFrom] at retrieved
      obtain ⟨_, _, retrieved⟩ := Option.bind_eq_some_iff.mp retrieved
      obtain ⟨lines, read, retrieved⟩ := Option.bind_eq_some_iff.mp retrieved
      obtain ⟨_, ends, retrieved⟩ := Option.bind_eq_some_iff.mp retrieved
      obtain ⟨_, _, retrieved⟩ := Option.bind_eq_some_iff.mp retrieved
      obtain ⟨found, grounded, retrieved⟩ := Option.bind_eq_some_iff.mp retrieved
      obtain ⟨others, later, _⟩ := Option.bind_eq_some_iff.mp retrieved
      intro other member
      rcases List.mem_cons.mp member with rfl | inside
      · have same := sourceLines_eq read
        rw [ground] at grounded
        split at grounded
        next valid =>
          refine ⟨fun range inside => ?_, ?_⟩
          · rw [same]
            have all := of_guard ends
            simp only [List.all_eq_true, decide_eq_true_eq] at all
            exact all range inside
          · rw [textOf, same]
            exact valid.2.2.1
        next => cases grounded
      · exact ih later other inside

/-! ### Resolution -/

theorem requestOf_matches {found : GroundedSource} {request : RetrievalRequest} (matched : Matches baseline found request)
    (valid : request.valid = true) : requestOf found = some request := by
  have parts := valid
  simp only [RetrievalRequest.valid, Bool.and_eq_true, Bool.not_eq_true'] at parts
  obtain ⟨⟨⟨⟨_, named⟩, nonempty⟩, _⟩, _⟩ := parts
  have path : request.path ≠ "" := by
    intro empty
    rw [empty] at named
    cases named
  have ranges : request.lineRanges ≠ [] := by
    intro empty
    rw [empty] at nonempty
    cases nonempty
  rw [requestOf, matched.locator, readLocator_formatLocator path ranges]
  have same : (⟨found.contextId.val, request.path, request.lineRanges⟩ : RetrievalRequest) = request := by
    rw [matched.contextId]
  simp only [Option.bind_eq_bind, Option.bind_some, same, valid, guard_true]
  rfl

theorem mapM_requestOf {sources : List GroundedSource} {requests : List RetrievalRequest}
    (matched : List.Forall₂ (Matches baseline) sources requests)
    (valid : ∀ request ∈ requests, request.valid = true) : sources.mapM requestOf = some requests := by
  induction matched with
  | nil => rfl
  | cons first rest ih =>
      rw [List.mapM_cons, requestOf_matches first (valid _ List.mem_cons_self),
        ih fun request member => valid request (List.mem_cons_of_mem _ member)]
      rfl

theorem map_contextId {sources : List GroundedSource} {requests : List RetrievalRequest}
    (matched : List.Forall₂ (Matches baseline) sources requests) :
    sources.map (fun found => found.contextId.val) = requests.map RetrievalRequest.contextId := by
  induction matched with
  | nil => rfl
  | cons first rest ih => rw [List.map_cons, List.map_cons, first.contextId, ih]

theorem source_of_matches {sources : List GroundedSource} {requests : List RetrievalRequest}
    (matched : List.Forall₂ (Matches baseline) sources requests) : ∀ found ∈ sources, found.source = baseline.ref := by
  induction matched with
  | nil => simp
  | cons first rest ih =>
      intro found member
      rcases List.mem_cons.mp member with rfl | inside
      · exact first.source
      · exact ih found inside

theorem mapM_eq_self {α : Type} {items : List α} {step : α → Option α} (same : ∀ item ∈ items, step item = some item) :
    items.mapM step = some items := by
  induction items with
  | nil => rfl
  | cons item rest ih =>
      rw [List.mapM_cons, same item List.mem_cons_self, ih fun other member => same other (List.mem_cons_of_mem _ member)]
      rfl

theorem find?_contextId {sources : List GroundedSource}
    (distinct : (sources.map fun found => found.contextId.val).Nodup) {wanted : GroundedSource}
    (member : wanted ∈ sources) :
    sources.find? (fun found => found.contextId.val = wanted.contextId.val) = some wanted := by
  have exists_found : (sources.find? fun found => found.contextId.val = wanted.contextId.val).isSome = true :=
    List.find?_isSome.mpr ⟨wanted, member, by simp⟩
  obtain ⟨found, same⟩ := Option.isSome_iff_exists.mp exists_found
  have equal := List.inj_on_of_nodup_map distinct (List.mem_of_find?_eq_some same) member
    (by simpa using List.find?_some same)
  rw [same, equal]

/-- What was retrieved resolves to itself. -/
theorem resolve_retrieved (other : GroundedSource → Option GroundedSource) {requests : List RetrievalRequest}
    {sources : List GroundedSource} (retrieved : retrieve baseline policy requests = some sources)
    (matched : List.Forall₂ (Matches baseline) sources requests) (nonempty : requests ≠ [])
    (valid : ∀ request ∈ requests, request.valid = true)
    (distinct : (requests.map RetrievalRequest.contextId).Nodup) :
    resolve baseline policy other sources = some sources := by
  have sources_nonempty : sources ≠ [] := by
    rintro rfl
    cases matched
    exact nonempty rfl
  have ids : (sources.map fun found => found.contextId.val).Nodup := by
    rw [map_contextId matched]
    exact distinct
  have all : sources.filter (fun found => found.source = baseline.ref) = sources :=
    List.filter_eq_self.mpr fun found member => decide_eq_true (source_of_matches matched found member)
  have resolved : (sources.mapM fun found => if found.source = baseline.ref then
      sources.find? fun candidate => candidate.contextId.val = found.contextId.val else other found) = some sources :=
    mapM_eq_self fun found member => by
      rw [if_pos (source_of_matches matched found member), find?_contextId ids member]
  rw [resolve]
  simp only [all, sources_nonempty, mapM_requestOf matched valid, retrieved, ids, ne_eq, not_false_eq_true, and_self,
    guard_true, Option.bind_eq_bind, Option.bind_some, Option.pure_def, if_false]
  rw [resolved]
  simp

/-! ### Agreement -/

theorem archiveFiles_workflowPolicy (bounds : Bounds) (spans : List RetrievalRequest) :
    archiveFiles baseline (workflowPolicy limits bounds spans) = some baseline.files := by
  have archive := baseline.archiveBound
  have files := baseline.fileBound
  have expanded := baseline.expandedBound
  have safe : baseline.files.keys.all safePath = true := List.all_eq_true.mpr baseline.safe
  rw [archiveFiles, if_neg]
  simp only [safe, Bool.not_true, Bool.or_false, Bool.or_eq_true, decide_eq_true_eq]
  change ¬ ((limits.maxArchiveBytes < _ ∨ limits.maxFiles < _) ∨ limits.maxSourceBytes < _)
  omega

theorem sum_length_le {requests : List RetrievalRequest}
    (short : ∀ request ∈ requests, request.lineRanges.length ≤ 4) :
    (requests.map fun request => request.lineRanges.length).sum ≤ 4 * requests.length := by
  induction requests with
  | nil => simp
  | cons request rest ih =>
      have first := short request List.mem_cons_self
      have others := ih fun other member => short other (List.mem_cons_of_mem _ member)
      simp only [List.map_cons, List.sum_cons, List.length_cons]
      omega

theorem retrieve_spans (returned : selectSourceSpans ranking bounds baseline.files roots = some spans)
    (legible : ∀ span ∈ spans, Legible baseline.files span) :
    ∃ sources, retrieve baseline (workflowPolicy limits bounds spans) spans = some sources ∧
      List.Forall₂ (Matches baseline) sources spans := by
  have bounded := bounded_spans returned
  obtain ⟨same, nonempty, valid⟩ := spans_eq returned
  have ids : (spans.map RetrievalRequest.contextId).Nodup := by
    rw [same]
    exact nodup_contextIds _
  have known : ∀ span ∈ spans, Readable baseline.files span.path := by
    intro span member
    rw [same] at member
    exact readable_select (Dict.mem_keys.mpr ⟨_, (mem_requestsOf member).1⟩)
  have named : ∀ span ∈ spans, isIdentifier span.contextId = true := by
    intro span member
    rw [same] at member
    obtain ⟨index, name⟩ := (mem_requestsOf member).2
    rw [name]
    exact isIdentifier_contextName index
  obtain ⟨sources, retrieved, matched⟩ := @retrieveFrom_some baseline.files limits baseline
    (workflowPolicy limits bounds spans) spans 0 (fun span member => List.mem_map_of_mem member) known legible named
    (by rw [Nat.zero_add]; exact bounded.bytes)
  have few := sum_length_le bounded.count
  have files := bounded.files
  have room : (spans.map fun span => span.lineRanges.length).sum ≤ (workflowPolicy limits bounds spans).maxSpans := by
    change _ ≤ 4 * bounds.maxFiles
    omega
  refine ⟨sources, ?_, matched⟩
  rw [retrieve]
  simp only [nonempty, valid, ids, room, archiveFiles_workflowPolicy, ne_eq, not_false_eq_true, and_self, guard_true,
    Option.bind_eq_bind, Option.pure_def, Option.bind_some]
  exact retrieved

/-- The spans keep their bounds inside their files, and what they retrieve resolves to itself. -/
structure Agrees (bounds : Bounds) (baseline : Baseline limits) (other : GroundedSource → Option GroundedSource)
    (spans : List RetrievalRequest) : Prop where
  bounded : Bounded bounds baseline.files spans
  inside : ∀ span ∈ spans, ∀ range ∈ span.lineRanges, range.2 ≤ (sourceLines baseline.files span.path).length
  paths : (spans.map RetrievalRequest.path).Nodup
  retrieved : ∃ sources, retrieve baseline (workflowPolicy limits bounds spans) spans = some sources ∧
    List.Forall₂ (Matches baseline) sources spans ∧
    resolve baseline (workflowPolicy limits bounds spans) other sources = some sources

end

namespace Sample

def limits : SourceLimits := ⟨1000, 10, 1000⟩

def file : String := "pkg/__init__.py"

def baseline : Baseline limits where
  ref :=
    { sha256 := ⟨"6ad189ace456a83fade855d5a647cd8ad9e7966da4404b1187218dca3d9eddaa", isDigest_source⟩
      kind := ⟨"source-archive", isIdentifier_sourceArchive⟩
      schemaVersion := 1
      visibility := .authoring
      encoding := .bytes
      bounded := firstSchema }
  archiveBytes := 900
  files := Dict.empty.set file [10]
  kind := rfl
  encoding := rfl
  visible := .inr rfl
  archiveBound := by decide
  fileBound := by decide +kernel
  expandedBound := by decide +kernel
  safe := by decide +kernel

def bounds : Bounds := ⟨1, 8, 1024, by decide⟩

/-- The file has no definitions and no words. -/
def ranking : Ranking := ⟨fun _ => 0, fun _ _ => []⟩

def spans : List RetrievalRequest := [⟨"B_1", file, [(1, 1)]⟩]

theorem returned : selectSourceSpans ranking bounds baseline.files ["pkg"] = some spans := by decide +kernel

end Sample

end Context

end FeatureRl
