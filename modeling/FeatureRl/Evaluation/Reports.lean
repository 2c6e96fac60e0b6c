import FeatureRl.Contracts.Samples
import FeatureRl.Evaluation.Ledger

/-!
What a summary reports: for each arm, and for each pair of arms, every assigned cell once in each
population it belongs to.
-/

namespace FeatureRl

open Checked Sorting

namespace Evaluation

section

variable {P B L : Type} {roster : FrozenRoster} {preregistration : EvaluationPreregistration P B L}
  {trials : List TrialResult} {units : Units} {generator : Generator} {bootstrap : Bootstrap}

/-- Cells with the value that each contributes. -/
structure Population where
  cells : List Cell
  value : Cell → ℚ

/-- The groups hold the value of every cell of the population once, under the cell's family. -/
def Tallied (roster : FrozenRoster) (population : Population) (groups : Groups) : Prop :=
  ∀ family, (group groups family).Perm
    ((population.cells.filter fun cell => familyOf roster cell = some family).map population.value)

/-- How often the population is counted. -/
def sizeOf (roster : FrozenRoster) (population : Population) (familyWeighted : Bool) : Nat :=
  if familyWeighted then (population.cells.map (familyOf roster)).dedup.length else population.cells.length

/-- What a metric reports. -/
structure Expectation where
  name : String
  familyWeighted : Bool
  population : Population

structure Meets (generator : Generator) (roster : FrozenRoster) (expected : Expectation)
    (metric : MetricEstimate) : Prop where
  name : metric.name.val = expected.name
  size : metric.sampleSize = sizeOf roster expected.population expected.familyWeighted
  tallied : ∃ groups asked, estimate generator groups asked = .ok metric ∧ asked.name = expected.name ∧
    asked.familyWeighted = expected.familyWeighted ∧ Tallied roster expected.population groups

/-! ### What is expected -/

def allCells (roster : FrozenRoster) (preregistration : EvaluationPreregistration P B L)
    (trials : List TrialResult) (arm : ArmName) : Population :=
  ⟨assignedCells roster preregistration, unitValue trials arm⟩

def validCells (roster : FrozenRoster) (preregistration : EvaluationPreregistration P B L)
    (trials : List TrialResult) (arm : ArmName) : Population :=
  ⟨(assignedCells roster preregistration).filter (measured trials arm), unitValue trials arm⟩

def difference (trials : List TrialResult) (arms : ArmName × ArmName) (cell : Cell) : ℚ :=
  Binary64.rounded (unitValue trials arms.2 cell - unitValue trials arms.1 cell)

def allPairs (roster : FrozenRoster) (preregistration : EvaluationPreregistration P B L)
    (trials : List TrialResult) (arms : ArmName × ArmName) : Population :=
  ⟨assignedCells roster preregistration, difference trials arms⟩

def validPairs (roster : FrozenRoster) (preregistration : EvaluationPreregistration P B L)
    (trials : List TrialResult) (arms : ArmName × ArmName) : Population :=
  ⟨(assignedCells roster preregistration).filter fun cell =>
    measured trials arms.1 cell && measured trials arms.2 cell, difference trials arms⟩

def expectedRates (roster : FrozenRoster) (preregistration : EvaluationPreregistration P B L)
    (trials : List TrialResult) (arm : ArmName) : List Expectation :=
  [⟨metricName preregistration ++ "/" ++ arm.name ++ "/all_assigned", false,
      allCells roster preregistration trials arm⟩,
    ⟨metricName preregistration ++ "/" ++ arm.name ++ "/valid_only", false,
      validCells roster preregistration trials arm⟩]

def pairedName (arms : ArmName × ArmName) (weighting population : String) : String :=
  "paired/" ++ arms.2.name ++ "-" ++ arms.1.name ++ "/" ++ weighting ++ "/" ++ population

def expectedPairs (roster : FrozenRoster) (preregistration : EvaluationPreregistration P B L)
    (trials : List TrialResult) (arms : ArmName × ArmName) : List Expectation :=
  [⟨pairedName arms "task_weighted" "all_assigned", false, allPairs roster preregistration trials arms⟩,
    ⟨pairedName arms "family_weighted" "all_assigned", true, allPairs roster preregistration trials arms⟩,
    ⟨pairedName arms "task_weighted" "valid_only", false, validPairs roster preregistration trials arms⟩,
    ⟨pairedName arms "family_weighted" "valid_only", true, validPairs roster preregistration trials arms⟩]

def expectations (roster : FrozenRoster) (preregistration : EvaluationPreregistration P B L)
    (trials : List TrialResult) : List Expectation :=
  [ArmName.base, .featureGrpo].flatMap (expectedRates roster preregistration trials) ++
    preregistration.comparisons.flatMap (expectedPairs roster preregistration trials)

def expectedCounts (roster : FrozenRoster) (preregistration : EvaluationPreregistration P B L)
    (trials : List TrialResult) (arm : ArmName) : ArmCounts :=
  let cells := assignedCells roster preregistration
  ⟨arm, cells.length, (cells.filter (measured trials arm)).length,
    (cells.filter fun cell => measured trials arm cell && success trials arm cell).length,
    (cells.filter fun cell => measured trials arm cell && !success trials arm cell).length,
    (cells.filter fun cell => !measured trials arm cell).length⟩

/-! ### Tallies -/

theorem size_gather {entries : List (Identifier × ℚ)} :
    (Dict.gather entries).size = (entries.map Prod.fst).dedup.length := by
  rw [← Dict.length_keys]
  refine List.Perm.length_eq ((List.perm_ext_iff_of_nodup (Dict.gather entries).nodup
    (List.nodup_dedup _)).mpr fun family => ?_)
  rw [List.mem_dedup]
  exact Dict.mem_keys_gather

theorem keys_gather_perm (entries : List (Identifier × ℚ)) :
    (Dict.gather entries).keys.Perm (entries.map Prod.fst).dedup :=
  (List.perm_ext_iff_of_nodup (Dict.gather entries).nodup (List.nodup_dedup _)).mpr fun family => by
    rw [List.mem_dedup]
    exact Dict.mem_keys_gather

/-- The groups have as many values as were entered. -/
theorem lengths_gather (entries : List (Identifier × ℚ)) :
    ((Dict.gather entries).values.map List.length).sum = entries.length := by
  have lengths : (Dict.gather entries).values.map List.length =
      (Dict.gather entries).keys.map fun family => (entries.map Prod.fst).countP fun other => other = family := by
    rw [Dict.values, Dict.keys, List.map_map, List.map_map]
    refine List.map_congr_left fun entry member => ?_
    obtain ⟨same, _⟩ := @Dict.ne_nil_of_mem_gather _ _ _ entries entry.1 entry.2 member
    rw [Function.comp_apply, Function.comp_apply, same, Dict.under, List.length_map, List.countP_map,
      List.countP_eq_length_filter]
    rfl
  have total : ((entries.map Prod.fst).dedup.map fun family =>
      (entries.map Prod.fst).countP fun other => other = family).sum = (entries.map Prod.fst).length :=
    List.sum_map_count_dedup_eq_length _
  rw [lengths, ((keys_gather_perm entries).map _).sum_eq, total, List.length_map]

theorem pooled_eq_nil {entries : List (Identifier × ℚ)} : pooled (Dict.gather entries) = [] ↔ entries = [] := by
  constructor
  · intro none
    by_contra filled
    obtain ⟨entry, member⟩ := List.exists_mem_of_ne_nil _ filled
    have listed : entry.1 ∈ families (Dict.gather entries) := by
      rw [families, mem_sortBy, Dict.mem_keys_gather]
      exact List.mem_map_of_mem member
    rw [pooled, List.flatMap_eq_nil_iff] at none
    exact group_ne_nil (filled_gather entries) listed (none entry.1 listed)
  · rintro rfl
    rfl

/-- Entries that list the population, each cell once. -/
def Lists (roster : FrozenRoster) (population : Population) (entries : List (Identifier × ℚ)) : Prop :=
  (entries.map fun entry => (some entry.1, entry.2)).Perm
    (population.cells.map fun cell => (familyOf roster cell, population.value cell))

namespace Lists

variable {population : Population} {entries : List (Identifier × ℚ)}
  (lists : Lists roster population entries)

include lists

theorem tallied : Tallied roster population (Dict.gather entries) := by
  intro family
  have chosen := (lists.filter fun entry => entry.1 = some family).map Prod.snd
  rw [List.filter_map, List.filter_map, List.map_map, List.map_map] at chosen
  rw [group, Dict.getD_gather, Dict.under]
  have same : (entries.filter fun entry => entry.1 = family) =
      entries.filter ((fun entry => entry.1 = some family) ∘ fun entry => (some entry.1, entry.2)) := by
    refine List.filter_congr fun entry _ => ?_
    rw [Bool.eq_iff_iff, Function.comp_apply, decide_eq_true_eq, decide_eq_true_eq, Option.some_inj]
  rw [same]
  exact chosen

theorem length : entries.length = population.cells.length := by
  simpa using lists.length_eq

theorem families : (Dict.gather entries).size = (population.cells.map (familyOf roster)).dedup.length := by
  have named := (lists.map Prod.fst).dedup.length_eq
  rw [List.map_map, List.map_map] at named
  have injective : ((entries.map Prod.fst).map some).dedup.length = (entries.map Prod.fst).dedup.length := by
    rw [List.dedup_map_of_injective (Option.some_injective _), List.length_map]
  rw [size_gather, ← injective, List.map_map]
  exact named

theorem meets {asked : Asked} (positive : 0 < asked.bootstrapResamples) (named : isText asked.name = true)
    (sized : asked.sampleSize = sizeOf roster population asked.familyWeighted) :
    ∃ metric, estimate generator (Dict.gather entries) asked = .ok metric ∧
      Meets generator roster ⟨asked.name, asked.familyWeighted, population⟩ metric := by
  have counted : entries = [] ↔ asked.sampleSize = 0 := by
    rw [sized, sizeOf]
    split
    next =>
      rw [← lists.families, size_gather, List.length_eq_zero_iff, List.dedup_eq_nil, List.map_eq_nil_iff]
    next => rw [← lists.length, List.length_eq_zero_iff]
  obtain ⟨metric, found, name, size⟩ := @estimate_eq_ok generator _ (filled_gather entries) asked named positive
    fun filled => Nat.pos_of_ne_zero fun none => filled (pooled_eq_nil.mpr (counted.mpr none))
  refine ⟨metric, found, name, ?_, _, asked, found, rfl, rfl, lists.tallied⟩
  rw [size]
  split
  next none => rw [← sized, counted.mp (pooled_eq_nil.mp none)]
  next => exact sized

end Lists

/-! ### Units of a population -/

/-- A unit of a cell. -/
structure Describes (roster : FrozenRoster) (value : Cell → ℚ) (known : Cell → Bool) (cell : Cell)
    (unit : TrialUnit) : Prop where
  family : familyOf roster cell = some unit.family
  all : unit.allValue = value cell
  valid : unit.validValue = if known cell then some (value cell) else none

/-- Units that describe the cells, in some order. -/
def Covers (roster : FrozenRoster) (cells : List Cell) (value : Cell → ℚ) (known : Cell → Bool)
    (assigned : List TrialUnit) : Prop :=
  ∃ listed, listed.Perm cells ∧ List.Forall₂ (Describes roster value known) listed assigned

section

variable {cells : List Cell} {value : Cell → ℚ} {known : Cell → Bool} {assigned : List TrialUnit}

theorem Covers.all (covers : Covers roster cells value known assigned) :
    Lists roster ⟨cells, value⟩ (assigned.map fun unit => (unit.family, unit.allValue)) := by
  obtain ⟨listed, same, each⟩ := covers
  rw [Lists, List.map_map, ← map_eq_of_forall₂ each fun cell unit described =>
    show (familyOf roster cell, value cell) = _ by
      rw [described.family, ← described.all]
      rfl]
  exact same.map _

theorem valid_entries {listed : List Cell} (each : List.Forall₂ (Describes roster value known) listed assigned) :
    ((assigned.filterMap fun unit => unit.validValue.map fun measured => (unit.family, measured)).map
      fun entry => (some entry.1, entry.2)) =
      (listed.filter known).map fun cell => (familyOf roster cell, value cell) := by
  induction each with
  | nil => rfl
  | @cons cell unit _ _ here _ ih =>
      rw [List.filter_cons, List.filterMap_cons, here.valid]
      by_cases counted : known cell = true
      · rw [if_pos counted, if_pos counted, Option.map_some]
        simp only [List.map_cons]
        rw [ih, here.family]
      · rw [if_neg counted, if_neg counted, Option.map_none]
        exact ih

theorem Covers.valid (covers : Covers roster cells value known assigned) :
    Lists roster ⟨cells.filter known, value⟩
      (assigned.filterMap fun unit => unit.validValue.map fun measured => (unit.family, measured)) := by
  obtain ⟨listed, same, each⟩ := covers
  rw [Lists, valid_entries each]
  exact (same.filter _).map _

/-- Units are counted where their cells are. -/
theorem Covers.count {test : TrialUnit → Bool} {holds : Cell → Bool}
    (covers : Covers roster cells value known assigned)
    (agree : ∀ cell unit, Describes roster value known cell unit → test unit = holds cell) :
    (assigned.filter test).length = (cells.filter holds).length := by
  obtain ⟨listed, same, each⟩ := covers
  rw [← (same.filter holds).length_eq, ← List.countP_eq_length_filter, ← List.countP_eq_length_filter]
  clear same
  induction each with
  | nil => rfl
  | cons here _ ih => rw [List.countP_cons, List.countP_cons, ih, agree _ _ here]

end

theorem cellOf_perm (gridded : Gridded roster preregistration trials units) (arm : ArmName)
    (unique : (assignedCells roster preregistration).Nodup) :
    ((units.filter fun entry => entry.1.2.2 = arm).map fun entry => (entry.1.1, entry.1.2.1)).Perm
      (assignedCells roster preregistration) := by
  refine (List.perm_ext_iff_of_nodup ?_ unique).mpr fun cell => ?_
  · refine List.Nodup.map_on ?_ (gridded.unique.of_map.filter _)
    intro one first two second same
    simp only [List.mem_filter, decide_eq_true_eq] at first second
    refine List.inj_on_of_nodup_map gridded.unique first.1 second.1 ?_
    exact Prod.ext (Prod.mk.inj same).1 (Prod.ext (Prod.mk.inj same).2 (first.2.trans second.2.symm))
  · rw [← gridded.grid cell.1 cell.2 arm, List.mem_map, List.mem_map]
    simp only [List.mem_filter, decide_eq_true_eq]
    constructor
    · rintro ⟨entry, ⟨member, rfl⟩, rfl⟩
      exact ⟨entry, member, rfl⟩
    · rintro ⟨entry, member, key⟩
      exact ⟨entry, ⟨member, congrArg (fun key => key.2.2) key⟩,
        congrArg (fun key => (key.1, key.2.1)) key⟩

theorem unitFor_eq_some {arm : ArmName} {cell : Cell} {unit : TrialUnit}
    (described : unitFor roster trials arm cell = some unit) :
    Describes roster (unitValue trials arm) (measured trials arm) cell unit := by
  rw [unitFor, Option.map_eq_some_iff] at described
  obtain ⟨family, found, rfl⟩ := described
  exact ⟨found, rfl, rfl⟩

theorem covers_arm (gridded : Gridded roster preregistration trials units) (arm : ArmName)
    (unique : (assignedCells roster preregistration).Nodup) :
    Covers roster (assignedCells roster preregistration) (unitValue trials arm) (measured trials arm)
      (armUnits units arm) := by
  refine ⟨_, cellOf_perm gridded arm unique, ?_⟩
  rw [armUnits, List.forall₂_map_left_iff, List.forall₂_map_right_iff]
  refine List.forall₂_same.mpr fun entry member => ?_
  obtain ⟨listed, arms⟩ := List.mem_filter.mp member
  have described := gridded.described entry listed
  rw [of_decide_eq_true arms] at described
  exact unitFor_eq_some described

theorem cellsOf_perm (gridded : Gridded roster preregistration trials units)
    (unique : (assignedCells roster preregistration).Nodup) :
    (cellsOf units).Perm (assignedCells roster preregistration) := by
  refine (sortBy_perm _ _).trans ((List.perm_ext_iff_of_nodup (List.nodup_dedup _) unique).mpr fun cell => ?_)
  rw [List.mem_dedup, List.mem_map]
  constructor
  · rintro ⟨entry, member, rfl⟩
    exact (gridded.grid _ _ entry.1.2.2).mp (List.mem_map_of_mem member)
  · intro inside
    obtain ⟨entry, member, key⟩ := List.mem_map.mp ((gridded.grid cell.1 cell.2 .base).mpr inside)
    exact ⟨entry, member, congrArg (fun key => (key.1, key.2.1)) key⟩

theorem lookup_eq_some (gridded : Gridded roster preregistration trials units) {cell : Cell} (arm : ArmName)
    (inside : cell ∈ assignedCells roster preregistration) : ∃ unit,
      unitAt units (cell.1, cell.2, arm) = some unit ∧
        Describes roster (unitValue trials arm) (measured trials arm) cell unit := by
  obtain ⟨entry, member, key⟩ := List.mem_map.mp ((gridded.grid cell.1 cell.2 arm).mpr inside)
  have described := gridded.described entry member
  rw [key] at described
  refine ⟨entry.2, ?_, unitFor_eq_some described⟩
  cases found : units.find? fun item => item.1 = (cell.1, cell.2, arm) with
  | none => exact absurd key (by simpa using List.find?_eq_none.mp found entry member)
  | some other =>
      have named : other.1 = (cell.1, cell.2, arm) := by simpa using List.find?_some found
      rw [unitAt, found, List.inj_on_of_nodup_map gridded.unique (List.mem_of_find?_eq_some found) member
        (named.trans key.symm)]
      rfl

theorem pairs_eq_ok (gridded : Gridded roster preregistration trials units)
    (unique : (assignedCells roster preregistration).Nodup) (arms : ArmName × ArmName) :
    ∃ pairs, mapAll (pairOf units arms) (cellsOf units) = .ok pairs ∧
      Covers roster (assignedCells roster preregistration) (difference trials arms)
        (fun cell => measured trials arms.1 cell && measured trials arms.2 cell) pairs := by
  have same := cellsOf_perm gridded unique
  have each : ∀ cell ∈ cellsOf units, ∃ pair, pairOf units arms cell = .ok pair ∧
      Describes roster (difference trials arms)
        (fun cell => measured trials arms.1 cell && measured trials arms.2 cell) cell pair := by
    intro cell member
    obtain ⟨left, leftFound, before⟩ := lookup_eq_some gridded arms.1 (same.mem_iff.mp member)
    obtain ⟨right, rightFound, after⟩ := lookup_eq_some gridded arms.2 (same.mem_iff.mp member)
    have family : left.family = right.family := Option.some.inj (before.family.symm.trans after.family)
    simp only [pairOf, bind_eq_ok, require_eq_ok, refuse_eq_ok]
    refine ⟨_, ⟨left, leftFound, right, rightFound, (), not_not.mpr family, rfl⟩, before.family, ?_, ?_⟩
    · rw [before.all, after.all]
      rfl
    · rw [before.valid, after.valid]
      by_cases first : measured trials arms.1 cell = true <;> by_cases second : measured trials arms.2 cell = true <;>
        simp [first, second, difference]
  obtain ⟨pairs, found, all⟩ := mapAll_forall₂ each
  exact ⟨pairs, found, _, same, all⟩

/-! ### Reports -/

theorem isText_append (first : String) {second : String} (filled : isText second = true) :
    isText (first ++ second) = true := by
  rw [isText, String.toList_append, List.any_append, ← isText, ← isText, filled, Bool.or_true]

theorem length_filter_split (cells : List Cell) (one two : Cell → Bool) :
    (cells.filter one).length =
      (cells.filter fun cell => one cell && two cell).length +
        (cells.filter fun cell => one cell && !two cell).length := by
  induction cells with
  | nil => rfl
  | cons cell rest ih =>
      simp only [List.filter_cons]
      cases one cell <;> cases two cell <;> simp [ih] <;> omega

theorem length_filter_rest (cells : List Cell) (test : Cell → Bool) :
    cells.length = (cells.filter test).length + (cells.filter fun cell => !test cell).length := by
  simpa using length_filter_split cells (fun _ => true) test

theorem counts_eq {arm : ArmName} {assigned : List TrialUnit}
    (covers : Covers roster (assignedCells roster preregistration) (unitValue trials arm)
      (measured trials arm) assigned) :
    countsOf arm assigned = expectedCounts roster preregistration trials arm := by
  have all : assigned.length = (assignedCells roster preregistration).length := by
    rw [← List.length_map (f := fun unit : TrialUnit => (unit.family, unit.allValue)), covers.all.length]
  have known {cell : Cell} {unit : TrialUnit}
      (described : Describes roster (unitValue trials arm) (measured trials arm) cell unit) :
      unit.validValue.isSome = measured trials arm cell := by
    rw [described.valid]
    cases measured trials arm cell <;> rfl
  have valid : (assigned.filter fun item => item.validValue.isSome).length =
      ((assignedCells roster preregistration).filter (measured trials arm)).length :=
    covers.count fun cell unit described => known described
  have successes : ((assigned.filter fun item => item.validValue.isSome).filter fun item =>
      item.validValue.any fun value => value ≠ 0).length =
      ((assignedCells roster preregistration).filter fun cell =>
        measured trials arm cell && success trials arm cell).length := by
    rw [List.filter_filter]
    refine covers.count fun cell unit described => ?_
    rw [described.valid, unitValue]
    cases measured trials arm cell <;> cases success trials arm cell <;> simp
  have failures := length_filter_split (assignedCells roster preregistration) (measured trials arm)
    (success trials arm)
  have rest := length_filter_rest (assignedCells roster preregistration) (measured trials arm)
  simp only [countsOf, expectedCounts, all, valid, successes, ArmCounts.mk.injEq, true_and]
  omega

theorem armMetrics_eq_ok (covers : ∀ arm, Covers roster (assignedCells roster preregistration)
    (unitValue trials arm) (measured trials arm) (armUnits units arm)) (positive : 0 < bootstrap.resamples)
    (arm : ArmName × Nat) :
    ∃ metrics, armMetrics generator bootstrap (metricName preregistration) units arm = .ok metrics ∧
      List.Forall₂ (Meets generator roster) (expectedRates roster preregistration trials arm.1) metrics := by
  have counts := counts_eq (covers arm.1)
  obtain ⟨all, allFound, allMeets⟩ := @Lists.meets roster generator _ _ (covers arm.1).all
    ⟨metricName preregistration ++ "/" ++ arm.1.name ++ "/all_assigned", false, (armUnits units arm.1).length,
      bootstrap.seed + arm.2 * 2, bootstrap.resamples, baseLimitations⟩ positive
    (isText_append _ (by decide)) (congrArg ArmCounts.assigned counts)
  obtain ⟨valid, validFound, validMeets⟩ := @Lists.meets roster generator _ _ (covers arm.1).valid
    ⟨metricName preregistration ++ "/" ++ arm.1.name ++ "/valid_only", false,
      (countsOf arm.1 (armUnits units arm.1)).valid, bootstrap.seed + arm.2 * 2 + 1, bootstrap.resamples,
      baseLimitations ++ [excludedTrials]⟩ positive
    (isText_append _ (by decide)) (congrArg ArmCounts.valid counts)
  simp only [armMetrics, bind_eq_ok]
  exact ⟨_, ⟨all, allFound, valid, validFound, rfl⟩, .cons allMeets (.cons validMeets .nil)⟩

theorem pairedMetric_eq_ok {population : Population} {entries : List (Identifier × ℚ)}
    (lists : Lists roster population entries) (positive : 0 < bootstrap.resamples) (arms : ArmName × ArmName)
    (index : Nat) {label : String} (filled : isText label = true) (limitations : List Text)
    (familyWeighted : Bool) :
    ∃ metric, pairedMetric generator bootstrap arms index (Dict.gather entries) label limitations
        familyWeighted = .ok metric ∧
      Meets generator roster ⟨pairedName arms (if familyWeighted then "family_weighted" else "task_weighted")
        label, familyWeighted, population⟩ metric := by
  refine lists.meets positive (isText_append _ filled) ?_
  rw [sizeOf]
  cases familyWeighted with
  | true => exact lists.families
  | false => exact (lengths_gather entries).trans lists.length

theorem pairedMetrics_eq_ok (gridded : Gridded roster preregistration trials units)
    (unique : (assignedCells roster preregistration).Nodup) (positive : 0 < bootstrap.resamples)
    (comparison : (ArmName × ArmName) × Nat) :
    ∃ metrics, pairedMetrics generator bootstrap units comparison = .ok metrics ∧
      List.Forall₂ (Meets generator roster) (expectedPairs roster preregistration trials comparison.1)
        metrics := by
  obtain ⟨pairs, found, covers⟩ := pairs_eq_ok gridded unique comparison.1
  have all := fun weighted => @pairedMetric_eq_ok roster generator bootstrap _ _ covers.all positive
    comparison.1 comparison.2 "all_assigned" (by decide) baseLimitations weighted
  have valid := fun weighted => @pairedMetric_eq_ok roster generator bootstrap _ _ covers.valid positive
    comparison.1 comparison.2 "valid_only" (by decide) (baseLimitations ++ [excludedPairs]) weighted
  obtain ⟨allTask, allTaskFound, one⟩ := all false
  obtain ⟨allFamily, allFamilyFound, two⟩ := all true
  obtain ⟨validTask, validTaskFound, three⟩ := valid false
  obtain ⟨validFamily, validFamilyFound, four⟩ := valid true
  simp only [pairedMetrics, bind_eq_ok]
  exact ⟨_, ⟨pairs, found, allTask, allTaskFound, allFamily, allFamilyFound, validTask, validTaskFound,
    validFamily, validFamilyFound, rfl⟩, .cons one (.cons two (.cons three (.cons four .nil)))⟩

theorem forall₂_flatten {α β γ : Type} {holds : β → γ → Prop} {expected : α → List β} {items : List α}
    {values : List (List γ)} (all : List.Forall₂ (fun item value => List.Forall₂ holds (expected item) value)
      items values) : List.Forall₂ holds (items.flatMap expected) values.flatten := by
  induction all with
  | nil => exact .nil
  | cons here _ ih =>
      rw [List.flatMap_cons, List.flatten_cons]
      exact List.rel_append here ih

theorem flatMap_zipIdx {α β : Type} (expected : α → List β) (items : List α) (start : Nat) :
    (items.zipIdx start).flatMap (fun item => expected item.1) = items.flatMap expected := by
  induction items generalizing start with
  | nil => rfl
  | cons item rest ih => rw [List.zipIdx_cons, List.flatMap_cons, List.flatMap_cons, ih]

theorem unique_cells (preregistered : Preregistered roster preregistration) :
    (assignedCells roster preregistration).Nodup := by
  refine List.Nodup.product ?_ (List.nodup_dedup _)
  refine List.Nodup.map_on (fun one first two second same => ?_) preregistered.uniqueTasks.of_map
  exact List.inj_on_of_nodup_map preregistered.uniqueTasks first second (refKey_eq_iff.mpr same)

theorem armsOf_eq (preregistered : Preregistered roster preregistration) :
    armsOf preregistration = [.base, .featureGrpo] := by
  have same : (preregistration.arms.map ArmProtocol.arm).Perm [.base, .featureGrpo] := by
    refine (List.perm_ext_iff_of_nodup preregistration.uniqueArms (by decide)).mpr fun arm => ?_
    have present := preregistered.bothArms arm
    cases arm <;> simp [present]
  rw [armsOf, sortBy_eq_of_perm (fun one _ two _ => by cases one <;> cases two <;> decide) same]
  decide

/-- A report that accounts for the whole ledger. -/
structure Accounts (generator : Generator) (roster : FrozenRoster)
    (preregistration : EvaluationPreregistration P B L) (trials : List TrialResult)
    (report : EvaluationStatistics) : Prop where
  arms : report.arms = [ArmName.base, .featureGrpo].map (expectedCounts roster preregistration trials)
  totals : ∀ counts ∈ report.arms, counts.assigned = counts.valid + counts.invalid ∧
    counts.valid = counts.resolved + counts.failed
  metrics : List.Forall₂ (Meets generator roster) (expectations roster preregistration trials) report.metrics

/-- Every task and seed is one cell, and has a family. -/
structure Grid (roster : FrozenRoster) (preregistration : EvaluationPreregistration P B L) : Prop where
  unique : (assignedCells roster preregistration).Nodup
  whole : ∀ task seed, (task, seed) ∈ assignedCells roster preregistration ↔
    task ∈ roster.lockedTasks.map taskKey ∧ seed ∈ preregistration.seeds.seeds
  placed : ∀ cell ∈ assignedCells roster preregistration, ∃ family, familyOf roster cell = some family

theorem totals_expected (arm : ArmName) :
    (expectedCounts roster preregistration trials arm).assigned =
        (expectedCounts roster preregistration trials arm).valid +
          (expectedCounts roster preregistration trials arm).invalid ∧
      (expectedCounts roster preregistration trials arm).valid =
        (expectedCounts roster preregistration trials arm).resolved +
          (expectedCounts roster preregistration trials arm).failed :=
  ⟨length_filter_rest (assignedCells roster preregistration) (measured trials arm),
    length_filter_split (assignedCells roster preregistration) (measured trials arm) (success trials arm)⟩

theorem summarize_accounts (preregistered : Preregistered roster preregistration)
    (complete : Complete roster preregistration trials) (positive : 0 < bootstrap.resamples) :
    ∃ report, summarizeTrials generator bootstrap roster preregistration trials = .ok report ∧
      Accounts generator roster preregistration trials report := by
  have unique := unique_cells preregistered
  obtain ⟨units, found, gridded⟩ := unitsOf_eq_ok preregistered complete
  have covers := fun arm => covers_arm gridded arm unique
  obtain ⟨rates, rated, rateMeets⟩ := mapAll_forall₂ fun arm (_ : arm ∈ (armsOf preregistration).zipIdx) =>
    @armMetrics_eq_ok P B L roster preregistration trials units generator bootstrap covers positive arm
  obtain ⟨paired, compared, pairMeets⟩ := mapAll_forall₂
    fun comparison (_ : comparison ∈ preregistration.comparisons.zipIdx) =>
      @pairedMetrics_eq_ok P B L roster preregistration trials units generator bootstrap gridded unique positive
        comparison
  have metrics : List.Forall₂ (Meets generator roster) (expectations roster preregistration trials)
      (rates.flatten ++ paired.flatten) := by
    have first := forall₂_flatten rateMeets
    have second := forall₂_flatten pairMeets
    rw [flatMap_zipIdx, armsOf_eq preregistered] at first
    rw [flatMap_zipIdx] at second
    exact List.rel_append first second
  have arms : ((armsOf preregistration).map fun arm => countsOf arm (armUnits units arm)) =
      [ArmName.base, .featureGrpo].map (expectedCounts roster preregistration trials) := by
    rw [armsOf_eq preregistered]
    exact List.map_congr_left fun arm _ => counts_eq (covers arm)
  have filled : ((armsOf preregistration).map fun arm => countsOf arm (armUnits units arm)) ≠ [] ∧
      rates.flatten ++ paired.flatten ≠ [] := by
    constructor
    · rw [arms]
      exact List.cons_ne_nil _ _
    · intro none
      rw [none] at metrics
      cases metrics
  refine ⟨⟨_, _, bootstrap.seed, bootstrap.resamples, baseLimitations, filled⟩, ?_, arms, ?_, metrics⟩
  · simp only [summarizeTrials, bind_eq_ok, refuse_eq_ok, checkAll_eq_ok]
    exact ⟨(), by omega, (), complete.checkComplete_eq_ok, (),
      fun trial member => checkTrial_eq_ok preregistered complete member, units, found, rates, rated, paired,
      compared, dif_pos filled⟩
  · intro counts member
    have listed := Eq.subst (motive := fun list => counts ∈ list) arms member
    obtain ⟨arm, _, rfl⟩ := List.mem_map.mp listed
    exact totals_expected arm

/-- The order of the trials does not matter. -/
theorem summarize_perm (preregistered : Preregistered roster preregistration)
    (complete : Complete roster preregistration trials) {others : List TrialResult} (same : trials.Perm others) :
    summarizeTrials generator bootstrap roster preregistration others =
      summarizeTrials generator bootstrap roster preregistration trials := by
  have checked {listed : List TrialResult} (complete : Complete roster preregistration listed) :
      checkComplete preregistration listed = .ok () ∧
        checkAll (checkTrial roster preregistration) listed = .ok () :=
    ⟨complete.checkComplete_eq_ok,
      checkAll_eq_ok.mpr fun trial member => checkTrial_eq_ok preregistered complete member⟩
  obtain ⟨one, two⟩ := checked complete
  obtain ⟨three, four⟩ := checked (complete.perm same)
  rw [summarizeTrials, summarizeTrials, one, two, three, four, unitsOf_perm complete same]

/-- An accepted preregistration and a complete ledger always give a report, in any order of the
trials, that counts every unit once in each population it belongs to. -/
theorem summarize_complete [DecidableEq P] [DecidableEq B] [DecidableEq L] (sha256 : Bytes → Digest)
    (generator : Generator) (bootstrap : Bootstrap) (roster : FrozenRoster)
    (preregistration result : EvaluationPreregistration P B L) (config : EvaluationConfig P L)
    (trials : List TrialResult)
    (accepted : validatePreregistration sha256 roster preregistration config = .ok result)
    (complete : Complete roster preregistration trials) (positive : 0 < bootstrap.resamples) :
    Grid roster preregistration ∧
    ∃ report, Accounts generator roster preregistration trials report ∧
      ∀ others, trials.Perm others →
        summarizeTrials generator bootstrap roster preregistration others = .ok report := by
  have preregistered := preregistered_of_validate accepted
  obtain ⟨report, found, accounts⟩ := @summarize_accounts P B L roster preregistration trials generator bootstrap
    preregistered complete positive
  refine ⟨⟨unique_cells preregistered, fun task seed => ?_, fun cell member => ?_⟩, report, accounts,
    fun others same => (summarize_perm preregistered complete same).trans found⟩
  · rw [assignedCells, List.pair_mem_product, List.mem_dedup]
  · obtain ⟨source, _, _, family⟩ := familyOf_eq_some preregistered member
    exact ⟨_, family⟩

end

/-! ### A study with one task -/

namespace SampleStudy

def protocol (arm : ArmName) (method : ArmMethod) (training : Option ArtifactRef) (budget : Option Unit) :
    ArmProtocol Unit Unit where
  arm := arm
  method := method
  policy := ()
  checkpoint := sampleTask 'd' isLowerHex_d
  trainingConfig := training
  initialCheckpoint := sampleTask 'd' isLowerHex_d
  tools := sampleTask 'e' isLowerHex_e
  actionFormat := ⟨"json", rfl⟩
  optimizerFamily := ⟨"adam", rfl⟩
  harnessVersion := ⟨"1", isText_one⟩
  trainingBudget := budget
  developmentBudget := ()

def assignment (name : Identifier) (arm : ArmName) : TrialAssignment :=
  ⟨name, sampleTask 'b' isLowerHex_b, arm, 7, 3, 0, rfl, by norm_num⟩

def seeds : SeedPolicy := ⟨⟨"fixed", by decide⟩, [7], true, by simp⟩

def rule : Text := ⟨"frozen", by decide⟩

def preregistration : EvaluationPreregistration Unit Unit Unit where
  arms := [protocol .base .starting none none,
    protocol .featureGrpo .factoryRl (some (sampleTask 'f' rfl)) (some ())]
  trials := [assignment ⟨"one", rfl⟩ .base, assignment ⟨"two", rfl⟩ .featureGrpo]
  limits := ()
  seeds := seeds
  metric := .passAt1
  episodesPerTrial := 1
  harnessVersion := rule
  checkpointSelectionRule := rule
  invalidTrialRule := rule
  comparisons := [(.base, .featureGrpo)]
  filled := by simp
  positive := Nat.one_pos
  uniqueArms := by decide
  uniqueTrials := by decide
  single _ := rfl

def config : EvaluationConfig Unit Unit where
  tasks := [sampleTask 'b' isLowerHex_b]
  arms := [⟨.base, (), sampleTask 'd' isLowerHex_d, none⟩, ⟨.featureGrpo, (), sampleTask 'd' isLowerHex_d, some (sampleTask 'f' rfl)⟩]
  limits := ()
  seeds := seeds
  partition := .lockedTest
  harnessVersion := rule
  checkpointSelectionRule := rule
  invalidTrialRule := rule
  metric := .passAt1
  episodesPerTrial := 1
  filled := by simp
  single _ := rfl
  uniqueArms := by decide

def trial (name : Identifier) (arm : ArmName) (resolved : Option Bool) : TrialResult :=
  ⟨name, sampleTask 'b' isLowerHex_b, ⟨"rq", isIdentifier_rq⟩, arm, 7, 3, resolved, by decide⟩

/-- The trained arm resolves the task; the base trial is invalid. -/
def trials : List TrialResult := [trial ⟨"two", rfl⟩ .featureGrpo (some true), trial ⟨"one", rfl⟩ .base none]

theorem complete : Complete sampleRoster preregistration trials where
  listed := by decide
  agrees := by decide
  placed := by decide

theorem accepted : (validatePreregistration (fun _ => sampleDigest '0' rfl) sampleRoster preregistration
    config).toBool = true := by
  decide +kernel

def generator : Generator := ⟨fun _ _ _ => 0, fun _ _ _ positive => positive⟩

end SampleStudy

theorem summarize_complete_sample : ∃ report, Accounts SampleStudy.generator sampleRoster
    SampleStudy.preregistration SampleStudy.trials report := by
  have accepted := SampleStudy.accepted
  cases outcome : validatePreregistration (fun _ => sampleDigest '0' rfl) sampleRoster
      SampleStudy.preregistration SampleStudy.config with
  | error failure =>
      rw [outcome] at accepted
      cases accepted
  | ok result =>
      obtain ⟨_, report, accounts, _⟩ := summarize_complete (fun _ => sampleDigest '0' rfl)
        SampleStudy.generator ⟨0, 2000⟩ sampleRoster SampleStudy.preregistration result SampleStudy.config
        SampleStudy.trials outcome SampleStudy.complete (by decide)
      exact ⟨report, accounts⟩

end Evaluation

end FeatureRl
