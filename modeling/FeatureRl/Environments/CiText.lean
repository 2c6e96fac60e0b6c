import FeatureRl.Environments.ConditionSafety
import FeatureRl.Lib.Outline
import FeatureRl.Pipeline.Context

/-!
The projection of a workflow to what runs on Linux. Blocks whose selector excludes Linux are blanked with the
comments; which blocks these are is read from the indentation.
-/

namespace FeatureRl

open Context (Line splitlines join)
open Pieces (trim)

namespace CiText

/-! ### Lines -/

def isComment (line : Line) : Bool := (skip line).head? = some '#'

def isSignificant (line : Line) : Bool := skip line ≠ [] && !isComment line

def lineAt (lines : List Line) (index : Nat) : Line := lines.getD index []

def indentAt (lines : List Line) (index : Nat) : Nat :=
  (lineAt lines index).length - (skip (lineAt lines index)).length

def significant (lines : List Line) : List Nat :=
  (List.range lines.length).filter fun index => isSignificant (lineAt lines index)

def blockAt (lines : List Line) (levels index : Nat) : Nat × Nat :=
  Outline.block (Outline.build (indentAt lines) lines.length (significant lines)) lines.length levels index

/-! ### Selectors -/

inductive Key where
  | runsOn
  | vmImage
  | os
  | condition
deriving DecidableEq

def Key.ofText (text : List Char) : Option Key :=
  if text = "runs-on".toList then some .runsOn
  else if text = "vmImage".toList then some .vmImage
  else if text = "os".toList then some .os
  else if text = "if".toList then some .condition
  else none

/-- The value before a comment. -/
def cutComment : List Char → List Char
  | [] => []
  | c :: rest => if isSpace c && (skip rest).head? = some '#' then [] else c :: cutComment rest

section

variable (unicode : Unicode)

/-- The key and the value of a line, when the key selects where a block runs. -/
def selector (line : Line) : Option (Key × List Char) :=
  let start := match skip line with
    | '-' :: rest => skip rest
    | text => text
  let key := start.takeWhile fun c => unicode.word c || c = '.' || c = '-'
  match Key.ofText key, skip (start.drop key.length) with
  | some found, ':' :: rest => some (found, strip (cutComment (strip rest)))
  | _, _ => none

def isMatrix (value : List Char) : Bool :=
  match ("$\x7b\x7b".toList.isPrefixOf? (trim isQuote value)) with
  | none => false
  | some rest =>
    match ("matrix.os".toList.isPrefixOf? (skip rest)) with
    | none => false
    | some rest => skip rest = "\x7d\x7d".toList

/-- The list that a line gives to `os`. -/
def osList (line : Line) : Option (List Char) :=
  match ("os:".toList.isPrefixOf? (skip line)) with
  | none => none
  | some rest =>
    match skip rest with
    | '[' :: items =>
        let inner := items.takeWhile (· ≠ ']')
        match items.drop inner.length with
        | ']' :: last => if inner ≠ [] ∧ skip last = [] then some ('[' :: (inner ++ [']'])) else none
        | _ => none
    | _ => none

def matrixFalse (lines : List Line) (block : Nat × Nat) : Bool :=
  match (List.range' block.1 (block.2 - block.1)).filterMap fun index => osList (lineAt lines index) with
  | [only] => nonLinux unicode only
  | _ => false

/-- The lines that a selector is about: its item, the block around it, or the one around that. -/
def scope (lines : List Line) (key : Key) (index : Nat) : Nat × Nat :=
  let levels := if "- ".toList <+: skip (lineAt lines index) then 0 else if key = .vmImage then 2 else 1
  blockAt lines levels index

def irrelevant (lines : List Line) (key : Key) (value : List Char) (block : Nat × Nat) : Bool :=
  if key = .condition then falseOnLinux unicode value
  else nonLinux unicode value || (key = .runsOn && isMatrix value && matrixFalse unicode lines block)

/-- The block that the line at an index excludes. -/
def excludes (lines : List Line) (index : Nat) : Option (Nat × Nat) :=
  match selector unicode (lineAt lines index) with
  | none => none
  | some (key, value) =>
      let block := scope lines key index
      if irrelevant unicode lines key value block then some block else none

/-! ### The projection -/

def select (lines : List Line) (excluded : List Nat) (index : Nat) : List Nat :=
  if index ∈ excluded then excluded
  else
    match excludes unicode lines index with
    | none => excluded
    | some (start, stop) => excluded ++ List.range' start (stop - start)

def excludedIn (lines : List Line) : List Nat := (significant lines).foldl (select unicode lines) []

def blank (lines : List Line) : List Line :=
  (List.range lines.length).map fun index =>
    if index ∈ excludedIn unicode lines ∨ isComment (lineAt lines index) = true then [] else lineAt lines index

def linuxCiText (content : List Char) : List Char := join (blank unicode (splitlines content))

/-! ### What is blanked -/

def Covers (lines : List Line) (chosen index : Nat) : Prop :=
  ∃ start stop, excludes unicode lines chosen = some (start, stop) ∧ start ≤ index ∧ index < stop

/-- The selectors that exclude a block: those of excluded systems that lie in no block of an earlier one. -/
def Chosen (lines : List Line) (among chosen : List Nat) : Prop :=
  ∀ index, index ∈ chosen ↔ index ∈ among ∧ (∃ lost, excludes unicode lines index = some lost) ∧
    ∀ earlier ∈ chosen, earlier < index → ¬ Covers unicode lines earlier index

theorem select_spec {lines : List Line} {done chosen excluded : List Nat} {next : Nat}
    (chooses : Chosen unicode lines done chosen)
    (covered : ∀ index, index ∈ excluded ↔ ∃ choice ∈ chosen, Covers unicode lines choice index)
    (after : ∀ index ∈ done, index < next) :
    ∃ more, Chosen unicode lines (done ++ [next]) more ∧
      ∀ index, index ∈ select unicode lines excluded next ↔ ∃ choice ∈ more, Covers unicode lines choice index := by
  have below : ∀ index ∈ chosen, index < next := fun index member => after index ((chooses index).mp member).1
  -- A line that is not chosen leaves the choice as it is.
  have skipped : (¬ ∃ lost, excludes unicode lines next = some lost) ∨ next ∈ excluded →
      Chosen unicode lines (done ++ [next]) chosen := by
    intro reason index
    rw [chooses index, List.mem_append, List.mem_singleton]
    refine ⟨fun ⟨member, rest⟩ => ⟨.inl member, rest⟩, ?_⟩
    rintro ⟨member | rfl, lost, apart⟩
    · exact ⟨member, lost, apart⟩
    · rcases reason with keeps | inside
      · exact absurd lost keeps
      · obtain ⟨choice, among, covers⟩ := (covered index).mp inside
        exact absurd covers (apart choice among (below choice among))
  rw [select]
  split
  next inside => exact ⟨chosen, skipped (.inr inside), covered⟩
  next outside =>
    split
    next keeps => exact ⟨chosen, skipped (.inl (by simp [keeps])), covered⟩
    next start stop lost =>
      refine ⟨chosen ++ [next], fun index => ?_, fun index => ?_⟩
      · rw [List.mem_append, List.mem_append, List.mem_singleton, chooses index]
        constructor
        · rintro (⟨member, found, apart⟩ | rfl)
          · refine ⟨.inl member, found, fun earlier inside less => ?_⟩
            rcases List.mem_append.mp inside with old | last
            · exact apart earlier old less
            · obtain rfl := List.mem_singleton.mp last
              exact absurd (after index member) (by omega)
          · refine ⟨.inr rfl, ⟨_, lost⟩, fun earlier inside less covers => ?_⟩
            rcases List.mem_append.mp inside with old | last
            · exact outside ((covered index).mpr ⟨earlier, old, covers⟩)
            · obtain rfl := List.mem_singleton.mp last
              omega
        · rintro ⟨member | rfl, found, apart⟩
          · exact .inl ⟨member, found, fun earlier inside => apart earlier (List.mem_append_left _ inside)⟩
          · exact .inr rfl
      · rw [List.mem_append, List.mem_range'_1, covered]
        constructor
        · rintro (⟨choice, among, covers⟩ | inside)
          · exact ⟨choice, List.mem_append_left _ among, covers⟩
          · exact ⟨next, by simp, start, stop, lost, by omega, by omega⟩
        · rintro ⟨choice, among, covers⟩
          rcases List.mem_append.mp among with old | last
          · exact .inl ⟨choice, old, covers⟩
          · obtain rfl := List.mem_singleton.mp last
            obtain ⟨first, last, same, above, less⟩ := covers
            obtain ⟨rfl, rfl⟩ := Prod.mk.inj (Option.some.inj (lost.symm.trans same))
            exact .inr (by omega)

theorem foldl_select {lines : List Line} {rest done chosen excluded : List Nat}
    (chooses : Chosen unicode lines done chosen)
    (covered : ∀ index, index ∈ excluded ↔ ∃ choice ∈ chosen, Covers unicode lines choice index)
    (increasing : (done ++ rest).Pairwise (· < ·)) :
    ∃ more, Chosen unicode lines (done ++ rest) more ∧ ∀ index,
      index ∈ rest.foldl (select unicode lines) excluded ↔ ∃ choice ∈ more, Covers unicode lines choice index := by
  induction rest generalizing done chosen excluded with
  | nil => exact ⟨chosen, by rwa [List.append_nil], covered⟩
  | cons next others ih =>
      have after : ∀ index ∈ done, index < next :=
        fun index member => (List.pairwise_append.mp increasing).2.2 index member next List.mem_cons_self
      have whole : done ++ next :: others = (done ++ [next]) ++ others := by simp
      obtain ⟨more, chooses_more, covered_more⟩ := select_spec unicode chooses covered after
      rw [whole] at increasing ⊢
      exact ih chooses_more covered_more increasing

theorem increasing_significant (lines : List Line) : (significant lines).Pairwise (· < ·) :=
  List.pairwise_lt_range.filter _

/-- What a selector excludes is a block of the outline around it. -/
theorem isBlock_of_excludes {lines : List Line} {index : Nat} (member : index ∈ significant lines)
    {lost : Nat × Nat} (excluded : excludes unicode lines index = some lost) :
    ∃ key value, selector unicode (lineAt lines index) = some (key, value) ∧
      (key = .condition → falseOnLinux unicode value = true) ∧
      Outline.IsBlock (indentAt lines) lines.length (significant lines)
        (if "- ".toList <+: skip (lineAt lines index) then 0 else if key = .vmImage then 2 else 1) index lost := by
  rw [excludes] at excluded
  split at excluded
  · cases excluded
  next key value found =>
    simp only at excluded
    split at excluded
    next taken =>
      obtain rfl := Option.some.inj excluded
      refine ⟨key, value, found, fun condition => by rwa [irrelevant, if_pos condition] at taken, ?_⟩
      exact Outline.isBlock_block (increasing_significant lines) _ member
    next => cases excluded

end

theorem splitFrom_lines {line : Line} {content : List Char} (clean : '\n' ∉ line) :
    ∀ other ∈ Context.splitFrom line content, '\n' ∉ other := by
  fun_induction Context.splitFrom line content with
  | case1 => simp
  | case2 line open_line => simpa using clean
  | case3 line rest ih => simpa [clean] using ih
  | case4 line char rest other breaks ih => simpa [clean] using ih
  | case5 line char rest other continues ih =>
      refine ih fun member => ?_
      rcases List.mem_cons.mp member with rfl | inside
      · exact continues (by decide)
      · exact clean inside

/-- The projection of some lines: what the chosen selectors cover is blank with the comments, and the rest is
as it was. What a selector covers is a block of the outline. -/
structure Projection (unicode : Unicode) (lines projected : List Line) : Prop where
  length : projected.length = lines.length
  blanks : ∃ chosen, Chosen unicode lines (significant lines) chosen ∧ ∀ index < lines.length,
    (((∃ choice ∈ chosen, Covers unicode lines choice index) ∨ isComment (lineAt lines index) = true) →
      lineAt projected index = []) ∧
    (¬ ((∃ choice ∈ chosen, Covers unicode lines choice index) ∨ isComment (lineAt lines index) = true) →
      lineAt projected index = lineAt lines index)
  blocks : ∀ index ∈ significant lines, ∀ lost, excludes unicode lines index = some lost →
    ∃ key value, selector unicode (lineAt lines index) = some (key, value) ∧
      (key = .condition → falseOnLinux unicode value = true) ∧
      Outline.IsBlock (indentAt lines) lines.length (significant lines)
        (if "- ".toList <+: skip (lineAt lines index) then 0 else if key = .vmImage then 2 else 1) index lost

theorem projection_blank (unicode : Unicode) (lines : List Line) :
    Projection unicode lines (blank unicode lines) := by
  refine ⟨by rw [blank, List.length_map, List.length_range], ?_,
    fun index member lost excluded => isBlock_of_excludes unicode member excluded⟩
  obtain ⟨chosen, chooses, covered⟩ :=
    @foldl_select unicode lines (significant lines) [] [] [] (by intro index; simp) (by simp)
      (by simpa using increasing_significant lines)
  refine ⟨chosen, by simpa using chooses, fun index bound => ?_⟩
  have here : lineAt (blank unicode lines) index =
      if index ∈ excludedIn unicode lines ∨ isComment (lineAt lines index) = true then []
      else lineAt lines index := by
    have read : (blank unicode lines)[index]? = some (if index ∈ excludedIn unicode lines ∨
        isComment (lineAt lines index) = true then [] else lineAt lines index) := by
      rw [blank, List.getElem?_map, List.getElem?_range bound, Option.map_some]
    rw [lineAt, List.getD_eq_getElem?_getD, read, Option.getD_some]
  have same : index ∈ excludedIn unicode lines ↔ ∃ choice ∈ chosen, Covers unicode lines choice index :=
    covered index
  rw [here, ← same]
  exact ⟨fun gone => if_pos gone, fun stays => if_neg stays⟩

theorem splitOn_linuxCiText (unicode : Unicode) {content : List Char} (some : splitlines content ≠ []) :
    (linuxCiText unicode content).splitOn '\n' = blank unicode (splitlines content) := by
  refine List.splitOn_intercalate '\n' (fun line member => ?_) ?_
  · obtain ⟨index, bound, rfl⟩ := List.mem_map.mp member
    have inside : lineAt (splitlines content) index ∈ splitlines content := by
      rw [lineAt, List.getD_eq_getElem?_getD, List.getElem?_eq_getElem (List.mem_range.mp bound), Option.getD_some]
      exact List.getElem_mem _
    split
    · exact List.not_mem_nil
    · exact splitFrom_lines List.not_mem_nil _ inside
  · intro none
    have length := (projection_blank unicode (splitlines content)).length
    rw [none] at length
    exact some (List.eq_nil_of_length_eq_zero length.symm)

namespace Sample

def unicode : Unicode := ⟨fun c => [c.toLower], fun c => c.isAlphanum || c = '_'⟩

def labels : Labels := ⟨"Linux".toList, "ubuntu-latest".toList⟩

theorem linux : Linux unicode labels := ⟨by decide +kernel, by decide +kernel⟩

def branch : Condition := .operand ⟨"github.ref == 'main'".toList, by decide +kernel⟩

def windows : Condition := .operand ⟨" runner.os == 'Windows' ".toList, by decide +kernel⟩

def macos : Condition := .operand ⟨" matrix.os == 'macos-14'".toList, by decide +kernel⟩

theorem blank_space : ∀ c ∈ [' '], isSpace c = true := by
  intro c member
  rw [List.mem_singleton.mp member]
  decide +kernel

/-- `github.ref == 'main'&& ( runner.os == 'Windows' || matrix.os == 'macos-14')` -/
def condition : Condition :=
  .both branch (.group ⟨[' '], blank_space⟩ ⟨[], by simp⟩ (.either windows macos))

def value : List Char := "$\x7b\x7b ".toList ++ condition.text ++ " \x7d\x7d".toList

def content : List Char := "on: push\njobs:\n  test:\n    if: runner.os == 'Windows'\n    steps: []\n".toList

end Sample

/-- A condition that is taken as excluding Linux and true there. -/
def Misread (value : List Char) (condition : Condition) : Prop :=
  unwrap value = condition.text ∧ falseOnLinux Sample.unicode value = true ∧
    condition.eval Sample.unicode Sample.labels (fun _ => true) = true

end CiText

end FeatureRl
