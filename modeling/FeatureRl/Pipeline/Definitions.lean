import FeatureRl.Lib.Gather
import FeatureRl.Pipeline.Lines
import FeatureRl.Pipeline.Spans

/-!
Selected definitions. The parser of Python numbers lines by line feeds and carriage returns, while selection and
retrieval slice the text at every boundary of `str.splitlines`.
-/

namespace Ranges

/-! ### Merged ranges cover what they are merged from -/

def Range.covers (outer inner : Range) : Prop := outer.1 ≤ inner.1 ∧ inner.2 ≤ outer.2

def Covered (ranges : List Range) (range : Range) : Prop := ∃ outer ∈ ranges, Range.covers outer range

theorem Covered.of_mem {ranges : List Range} {range : Range} (member : range ∈ ranges) : Covered ranges range :=
  ⟨range, member, le_refl _, le_refl _⟩

theorem Covered.trans {first second : List Range} {range : Range} (covered : Covered first range)
    (all : ∀ other ∈ first, Covered second other) : Covered second range := by
  obtain ⟨outer, member, before, after⟩ := covered
  obtain ⟨wider, inside, lower, upper⟩ := all outer member
  exact ⟨wider, inside, le_trans lower before, le_trans after upper⟩

theorem covered_mergeStep {merged : List Range} {range : Range} (sorted : ∀ other ∈ merged, other.1 ≤ range.1) :
    ∀ other ∈ range :: merged, Covered (mergeStep merged range) other := by
  cases merged with
  | nil => exact fun other member => .of_mem member
  | cons last rest =>
      rw [mergeStep]
      have first := sorted last List.mem_cons_self
      split
      next =>
        intro other member
        rcases List.mem_cons.mp member with rfl | member
        · exact ⟨_, List.mem_cons_self, first, le_max_left _ _⟩
        · rcases List.mem_cons.mp member with rfl | later
          · exact ⟨_, List.mem_cons_self, le_refl _, le_max_right _ _⟩
          · exact .of_mem (List.mem_cons_of_mem _ later)
      next => exact fun other member => .of_mem member

theorem mergeStep_le {merged : List Range} {range : Range} {bound : Nat} (sorted : ∀ other ∈ merged, other.1 ≤ bound)
    (here : range.1 ≤ bound) : ∀ other ∈ mergeStep merged range, other.1 ≤ bound := by
  cases merged with
  | nil => simpa [mergeStep] using here
  | cons last rest =>
      obtain ⟨first, others⟩ := List.forall_mem_cons.mp sorted
      rw [mergeStep]
      split
      next => exact List.forall_mem_cons.mpr ⟨first, others⟩
      next => exact List.forall_mem_cons.mpr ⟨here, sorted⟩

theorem covered_foldl {ranges merged : List Range} (sorted : ranges.Pairwise fun one two => one.1 ≤ two.1)
    (before : ∀ range ∈ ranges, ∀ other ∈ merged, other.1 ≤ range.1) :
    ∀ range ∈ merged ++ ranges, Covered (ranges.foldl mergeStep merged) range := by
  induction ranges generalizing merged with
  | nil =>
      intro range member
      rw [List.append_nil] at member
      exact .of_mem member
  | cons head rest ih =>
      obtain ⟨least, later⟩ := List.pairwise_cons.mp sorted
      obtain ⟨here, others⟩ := List.forall_mem_cons.mp before
      have covered := ih later fun range member => mergeStep_le (others range member) (least range member)
      intro range member
      have place : range ∈ head :: merged ∨ range ∈ rest := by
        rcases List.mem_append.mp member with old | new
        · exact .inl (List.mem_cons_of_mem _ old)
        · rcases List.mem_cons.mp new with rfl | inside
          · exact .inl List.mem_cons_self
          · exact .inr inside
      rcases place with old | inside
      · exact (covered_mergeStep here range old).trans fun other found => covered other (List.mem_append_left _ found)
      · exact covered range (List.mem_append_right _ inside)

theorem covered_merge (ranges : List Range) : ∀ range ∈ ranges, Covered (merge ranges) range := by
  intro range member
  have sorted : (Sorting.sortBy (fun range => toLex range) ranges).Pairwise fun one two => one.1 ≤ two.1 := by
    refine (Sorting.sortBy_sorted (fun range : Range => toLex range) ranges).imp fun {one two} below => ?_
    rcases Prod.Lex.le_iff.mp below with less | same
    · exact le_of_lt less
    · exact le_of_eq same.1
  obtain ⟨outer, inside, covers⟩ := covered_foldl sorted (by simp) range
    (List.mem_append_right [] (Sorting.mem_sortBy.mpr member))
  exact ⟨outer, List.mem_reverse.mpr inside, covers⟩

end Ranges

namespace FeatureRl

namespace Context

open Ranges

/-! ### Lines as the parser of Python counts them -/

def pythonFrom (line : Line) : List Char → List Line
  | [] => if line = [] then [] else [line.reverse]
  | '\r' :: '\n' :: rest => line.reverse :: pythonFrom [] rest
  | char :: rest => if char = '\n' ∨ char = '\r' then line.reverse :: pythonFrom [] rest
      else pythonFrom (char :: line) rest

def pythonLines (text : List Char) : List Line := pythonFrom [] text

/-- The lines of a definition with its decorators. -/
def definitionLines (text : List Char) (definition : Definition) : List Line :=
  ((pythonLines text).take definition.stop).drop (definition.start - 1)

/-- The first line keeps what was taken. -/
theorem pythonFrom_taken {line : Line} (some : line ≠ []) (text : List Char) :
    ∃ first rest, pythonFrom line text = first :: rest ∧ ∀ c ∈ line, c ∈ first := by
  fun_induction pythonFrom line text with
  | case1 => exact absurd rfl some
  | case2 line => exact ⟨_, _, rfl, fun c member => List.mem_reverse.mpr member⟩
  | case3 line rest => exact ⟨_, _, rfl, fun c member => List.mem_reverse.mpr member⟩
  | case4 line char rest => exact ⟨_, _, rfl, fun c member => List.mem_reverse.mpr member⟩
  | case5 line char rest _ _ ih =>
      obtain ⟨first, others, same, kept⟩ := ih (List.cons_ne_nil _ _)
      exact ⟨first, others, same, fun c member => kept c (List.mem_cons_of_mem _ member)⟩

/-- As long as no line holds another boundary, the two numberings agree. -/
theorem take_splitFrom {line : Line} {text : List Char} {count : Nat}
    (clean : ∀ other ∈ (pythonFrom line text).take count, ∀ c ∈ other, isBreak c = false) :
    (splitFrom line text).take count = (pythonFrom line text).take count := by
  fun_induction pythonFrom line text generalizing count with
  | case1 => rfl
  | case2 line some => rw [splitFrom, if_neg some]
  | case3 line rest ih =>
      cases count with
      | zero => rfl
      | succ count =>
          rw [List.take_succ_cons, List.forall_mem_cons] at clean
          rw [splitFrom, List.take_succ_cons, List.take_succ_cons, ih clean.2]
  | case4 line char rest other ends ih =>
      cases count with
      | zero => rfl
      | succ count =>
          rw [List.take_succ_cons, List.forall_mem_cons] at clean
          have breaks : isBreak char = true := by
            rcases ends with rfl | rfl <;> decide
          rw [splitFrom, if_pos breaks, List.take_succ_cons, List.take_succ_cons, ih clean.2]
          exact other
  | case5 line char rest other inside ih =>
      cases count with
      | zero => rfl
      | succ count =>
          obtain ⟨first, more, same, kept⟩ := pythonFrom_taken (List.cons_ne_nil char line) rest
          have plain : isBreak char = false := by
            rw [same, List.take_succ_cons, List.forall_mem_cons] at clean
            exact clean.1 char (kept char List.mem_cons_self)
          rw [splitFrom, if_neg (by simp [plain]), ih clean]
          exact other

/-! ### Selected candidates -/

section

variable {ranking : Ranking} {bounds : Bounds}

/-- The candidate's range is among the ranges of its file, alone or merged. -/
def Holds (selection : Selection) (path : String) (range : Range) : Prop :=
  ∃ ranges, selection.ranges.get? path = some ranges ∧ Covered ranges range

/-- At its turn the candidate is taken into the ranges of its file. -/
def Selected (ranking : Ranking) (bounds : Bounds) (source : Dict String Bytes) (roots : List String)
    (candidate : Candidate) : Prop :=
  ∃ before after, Sorting.sortBy order (candidates ranking bounds source roots) = before ++ candidate :: after ∧
    let selection := before.foldl (consider bounds (sourceLines source)) ⟨.empty, .empty, 0⟩
    (consider bounds (sourceLines source) selection candidate).ranges.get? candidate.path =
      some (merge ((selection.ranges.get? candidate.path).getD [] ++ [candidate.range]))

theorem Holds.consider {lines : String → List Line} {selection : Selection} {path : String} {range : Range}
    (holds : Holds selection path range) (candidate : Candidate) :
    Holds (consider bounds lines selection candidate) path range := by
  obtain ⟨ranges, found, covered⟩ := holds
  have kept : Holds selection path range := ⟨ranges, found, covered⟩
  rw [Context.consider]
  simp only
  split
  next => exact kept
  next =>
    split
    next => exact kept
    next =>
      split
      next => exact kept
      next =>
        by_cases same : candidate.path = path
        · subst same
          refine ⟨_, Dict.get?_set_self .., covered.trans fun other member => covered_merge _ other ?_⟩
          rw [found]
          exact List.mem_append_left _ member
        · refine ⟨ranges, ?_, covered⟩
          rw [Dict.get?_set, if_neg (Ne.symm same)]
          exact found

theorem Holds.foldl {lines : String → List Line} {selection : Selection} {path : String} {range : Range}
    (holds : Holds selection path range) (later : List Candidate) :
    Holds (later.foldl (Context.consider bounds lines) selection) path range := by
  induction later generalizing selection with
  | nil => exact holds
  | cons candidate rest ih => exact ih (holds.consider candidate)

theorem Selected.holds {source : Dict String Bytes} {roots : List String} {candidate : Candidate}
    (selected : Selected ranking bounds source roots candidate) :
    Holds (select ranking bounds source roots) candidate.path candidate.range := by
  obtain ⟨before, after, ordered, taken⟩ := selected
  rw [select, ordered, List.foldl_append, List.foldl_cons]
  refine Holds.foldl ⟨_, taken, covered_merge _ _ ?_⟩ after
  exact List.mem_append_right _ (List.mem_singleton_self _)

/-! ### Retrieved lines -/

variable {limits : SourceLimits} {baseline : Baseline limits} {policy : RetrievalPolicy}

/-- A source with the lines of a request. -/
structure Reads (files : Dict String Bytes) (found : GroundedSource) (request : RetrievalRequest) : Prop where
  contextId : found.contextId.val = request.contextId
  text : found.text.val = textOf files request

theorem reads_of_retrieveFrom {files : Dict String Bytes} {requests : List RetrievalRequest} {used : Nat}
    {sources : List GroundedSource} (retrieved : retrieveFrom baseline policy files requests used = some sources) :
    List.Forall₂ (Reads files) sources requests := by
  induction requests generalizing used sources with
  | nil =>
      obtain rfl := Option.some.inj retrieved
      exact .nil
  | cons request rest ih =>
      rw [retrieveFrom] at retrieved
      obtain ⟨_, _, retrieved⟩ := Option.bind_eq_some_iff.mp retrieved
      obtain ⟨lines, read, retrieved⟩ := Option.bind_eq_some_iff.mp retrieved
      obtain ⟨_, _, retrieved⟩ := Option.bind_eq_some_iff.mp retrieved
      obtain ⟨_, _, retrieved⟩ := Option.bind_eq_some_iff.mp retrieved
      obtain ⟨found, grounded, retrieved⟩ := Option.bind_eq_some_iff.mp retrieved
      obtain ⟨others, later, same⟩ := Option.bind_eq_some_iff.mp retrieved
      obtain rfl := Option.some.inj same
      refine .cons ?_ (ih later)
      rw [ground] at grounded
      split at grounded
      next =>
        obtain rfl := Option.some.inj grounded
        exact ⟨rfl, by rw [textOf, sourceLines_eq read]⟩
      next => cases grounded

theorem reads_of_retrieve {requests : List RetrievalRequest} {sources : List GroundedSource}
    (retrieved : retrieve baseline policy requests = some sources) :
    List.Forall₂ (Reads baseline.files) sources requests := by
  rw [retrieve] at retrieved
  obtain ⟨_, _, retrieved⟩ := Option.bind_eq_some_iff.mp retrieved
  obtain ⟨_, _, retrieved⟩ := Option.bind_eq_some_iff.mp retrieved
  obtain ⟨_, _, retrieved⟩ := Option.bind_eq_some_iff.mp retrieved
  obtain ⟨files, read, retrieved⟩ := Option.bind_eq_some_iff.mp retrieved
  rw [archiveFiles] at read
  split at read
  next => cases read
  next =>
    obtain rfl := Option.some.inj read
    exact reads_of_retrieveFrom retrieved

theorem join_close {lines : List Line} (some : lines ≠ []) :
    join lines ++ ['\n'] = lines.flatMap fun line => line ++ ['\n'] := by
  induction lines with
  | nil => exact absurd rfl some
  | cons line rest ih =>
      cases rest with
      | nil => simp [join]
      | cons next more =>
          rw [List.flatMap_cons, ← ih (List.cons_ne_nil _ _), join, List.intercalate_cons_of_ne_nil (List.cons_ne_nil _ _)]
          simp [join]

theorem within_flatMap {α β : Type} {items : List α} {item : α} (member : item ∈ items) (f : α → List β) :
    f item <:+: items.flatMap f := by
  obtain ⟨before, after, rfl⟩ := List.append_of_mem member
  exact ⟨before.flatMap f, after.flatMap f, by simp⟩

theorem exists_request {selection : Selection} {path : String} {ranges : List Range}
    (found : selection.ranges.get? path = some ranges) :
    ∃ span ∈ requestsOf selection, span.path = path ∧ span.lineRanges = ranges := by
  obtain ⟨index, short, same⟩ := List.getElem_of_mem (Dict.mem_entries.mpr found)
  refine ⟨⟨contextName (index + 1), path, ranges⟩, ?_, rfl, rfl⟩
  exact List.mem_mapIdx.mpr ⟨index, short, by rw [same]⟩

/-- The text of some lines is part of the text of the lines around them. -/
theorem join_within {lines inner : List Line} (inside : inner <:+: lines) :
    join inner <:+: join lines ++ ['\n'] := by
  by_cases some : inner = []
  · rw [some]
    exact (List.nil_prefix).isInfix
  obtain ⟨before, after, rfl⟩ := inside
  rw [join_close (by simp [some]), List.flatMap_append, List.flatMap_append, ← join_close some]
  exact ⟨before.flatMap fun line => line ++ ['\n'], ['\n'] ++ after.flatMap fun line => line ++ ['\n'], by simp⟩

theorem take_drop_within {α : Type} {items : List α} {outer inner : Range} (covers : Range.covers outer inner) :
    (items.take inner.2).drop (inner.1 - 1) <:+: (items.take outer.2).drop (outer.1 - 1) := by
  have cut : items.take inner.2 = (items.take outer.2).take inner.2 := by
    rw [List.take_take, Nat.min_eq_left covers.2]
  have skip : inner.1 - 1 = (outer.1 - 1) + ((inner.1 - 1) - (outer.1 - 1)) := by
    have := covers.1
    omega
  rw [cut, skip, ← List.drop_drop, List.drop_take]
  exact (List.drop_suffix _ _).isInfix.trans (List.take_prefix _ _).isInfix

/-- What is returned for the file holds the whole text of the definition. -/
def Complete (path : String) (text : List Char) (definition : Definition) (spans : List RetrievalRequest)
    (sources : List GroundedSource) : Prop :=
  ∃ span ∈ spans, span.path = path ∧ ∃ found ∈ sources, found.contextId.val = span.contextId ∧
    join (definitionLines text definition) <:+: found.text.val.toList

end

/-- A selected definition is returned whole as long as no line of its file up to its last one holds a boundary of
`str.splitlines` that is no line end for the parser. -/
theorem definition_complete {limits : SourceLimits} (ranking : Ranking) (bounds : Bounds) (baseline : Baseline limits)
    (policy : RetrievalPolicy) (roots : List String) (spans : List RetrievalRequest) (sources : List GroundedSource)
    (returned : selectSourceSpans ranking bounds baseline.files roots = some spans)
    (retrieved : retrieve baseline policy spans = some sources) (path : String) (data : Bytes) (text : List Char)
    (file : baseline.files.get? path = some data) (decoded : Utf8.decode data = some text) (definition : Definition)
    (short : definition.stop + 1 - definition.start ≤ 2 * bounds.maxLines)
    (selected : Selected ranking bounds baseline.files roots (definitionCandidate bounds path definition))
    (clean : ∀ line ∈ (pythonLines text).take definition.stop, ∀ c ∈ line, isBreak c = false) :
    Complete path text definition spans sources := by
  have whole : definitionCandidate bounds path definition =
      ⟨path, definition.start, definition.stop, definition.priority, definition.relevance⟩ := by
    rw [definitionCandidate, if_neg (by omega)]
  obtain ⟨ranges, found, range, member, covers⟩ := selected.holds
  rw [whole] at found covers
  obtain ⟨rfl, _, _⟩ := spans_eq returned
  obtain ⟨span, asked, rfl, rfl⟩ := exists_request found
  obtain ⟨source, given, read⟩ := Checked.forall_of_forall₂ (reads_of_retrieve retrieved) span asked
  refine ⟨span, asked, rfl, source, given, read.contextId, ?_⟩
  have lines : sourceLines baseline.files span.path = splitlines text := by
    apply sourceLines_eq
    rw [file, Option.bind_some, linesOf, decoded, Option.map_some]
  rw [read.text, textOf, lines, String.toList_ofList]
  have held : join (((splitlines text).take range.2).drop (range.1 - 1)) ++ ['\n'] <:+:
      span.lineRanges.flatMap (chunk (splitlines text)) := within_flatMap member (chunk (splitlines text))
  refine (join_within ?_).trans held
  have agree : definitionLines text definition = ((splitlines text).take definition.stop).drop (definition.start - 1) := by
    rw [definitionLines, splitlines, take_splitFrom clean, pythonLines]
  rw [agree]
  exact take_drop_within covers

deriving instance DecidableEq for Candidate

namespace Sample

def module : String := "pkg/a.py"

def code : List Char := "def f():\n  return 1\n".toList

/-- The same definition after a form feed. -/
def shifted : List Char := "\x0c\ndef f():\n  return 1\n".toList

def archive (text : List Char) (small : (Utf8.encode text).length ≤ 1000) : Baseline limits where
  ref := baseline.ref
  archiveBytes := 900
  files := Dict.empty.set module (Utf8.encode text)
  kind := rfl
  encoding := rfl
  visible := .inr rfl
  archiveBound := baseline.archiveBound
  fileBound := by
    change 1 ≤ 10
    decide
  expandedBound := by
    change (Utf8.encode text).length + 0 ≤ 1000
    exact small
  safe := by
    change ∀ path ∈ [module], safePath path = true
    decide +kernel

def function (start stop : Nat) (formed : Formed (start, stop)) : Definition := ⟨start, stop, 3080, 1, formed⟩

def found (definition : Definition) : Ranking := ⟨fun _ => 0, fun _ _ => [definition]⟩

def tight : Bounds := ⟨1, 8, 10, by decide⟩

def lines (start stop : Nat) : List RetrievalRequest := [⟨"B_1", module, [(start, stop)]⟩]

def plain : Baseline limits := archive code (by decide)

def drifted : Baseline limits := archive shifted (by decide)

def first : Definition := function 1 2 ⟨by decide, by decide⟩

def second : Definition := function 2 3 ⟨by decide, by decide⟩

theorem unbroken : ∀ line ∈ (pythonLines code).take first.stop, ∀ c ∈ line, isBreak c = false := by
  have clean : ((pythonLines code).take first.stop).all (fun line => line.all fun c => !isBreak c) = true := by decide
  simpa using clean

theorem selects_plain : selectSourceSpans (found first) bounds plain.files ["pkg"] = some (lines 1 2) := by
  decide +kernel

theorem selects_drifted : selectSourceSpans (found second) tight drifted.files ["pkg"] = some (lines 2 3) := by
  decide +kernel

theorem retrieves_plain : ∃ sources, retrieve plain (workflowPolicy limits bounds (lines 1 2)) (lines 1 2) = some sources :=
  Option.isSome_iff_exists.mp (by decide +kernel)

theorem retrieves_drifted :
    ∃ sources, retrieve drifted (workflowPolicy limits tight (lines 2 3)) (lines 2 3) = some sources :=
  Option.isSome_iff_exists.mp (by decide +kernel)

theorem selected_plain :
    Selected (found first) bounds plain.files ["pkg"] (definitionCandidate bounds module first) :=
  ⟨[], (Sorting.sortBy order (candidates (found first) bounds plain.files ["pkg"])).tail, by decide +kernel,
    by decide +kernel⟩

theorem selected_drifted :
    Selected (found second) tight drifted.files ["pkg"] (definitionCandidate tight module second) :=
  ⟨[], (Sorting.sortBy order (candidates (found second) tight drifted.files ["pkg"])).tail, by decide +kernel,
    by decide +kernel⟩

end Sample

theorem definition_complete_sample : ∃ sources, retrieve Sample.plain
    (workflowPolicy Sample.limits Sample.bounds (Sample.lines 1 2)) (Sample.lines 1 2) = some sources ∧
      Complete Sample.module Sample.code Sample.first (Sample.lines 1 2) sources := by
  obtain ⟨sources, retrieved⟩ := Sample.retrieves_plain
  exact ⟨sources, retrieved, definition_complete (Sample.found Sample.first) Sample.bounds Sample.plain _ ["pkg"] _ sources
    Sample.selects_plain retrieved Sample.module (Utf8.encode Sample.code) Sample.code rfl (Utf8.decode_encode _)
    Sample.first (by decide) Sample.selected_plain Sample.unbroken⟩

/-- After a form feed the returned lines stop before the body of the function. -/
theorem definition_cut : ∃ sources, selectSourceSpans (Sample.found Sample.second) Sample.tight Sample.drifted.files
      ["pkg"] = some (Sample.lines 2 3) ∧
    Selected (Sample.found Sample.second) Sample.tight Sample.drifted.files ["pkg"]
      (definitionCandidate Sample.tight Sample.module Sample.second) ∧
    retrieve Sample.drifted (workflowPolicy Sample.limits Sample.tight (Sample.lines 2 3)) (Sample.lines 2 3) =
      some sources ∧
    ¬ Complete Sample.module Sample.shifted Sample.second (Sample.lines 2 3) sources := by
  obtain ⟨sources, retrieved⟩ := Sample.retrieves_drifted
  refine ⟨sources, Sample.selects_drifted, Sample.selected_drifted, retrieved, ?_⟩
  rintro ⟨span, asked, _, source, given, _, held⟩
  obtain rfl := List.mem_singleton.mp asked
  obtain ⟨other, member, read⟩ := Checked.forall_of_forall₂ (List.Forall₂.flip (reads_of_retrieve retrieved)) source given
  obtain rfl := List.mem_singleton.mp member
  have text : sourceLines Sample.drifted.files Sample.module = splitlines Sample.shifted := by
    apply sourceLines_eq
    change Option.map splitlines (Utf8.decode (Utf8.encode Sample.shifted)) = _
    rw [Utf8.decode_encode, Option.map_some]
  have short : textOf Sample.drifted.files ⟨"B_1", Sample.module, [(2, 3)]⟩ =
      String.ofList ([(2, 3)].flatMap (chunk (splitlines Sample.shifted))) := by rw [textOf, text]
  rw [read.text, short, String.toList_ofList] at held
  exact absurd held (by decide)

end Context

end FeatureRl
