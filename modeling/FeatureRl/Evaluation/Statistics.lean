import FeatureRl.Evaluation.Preregistration
import FeatureRl.Lib.Gather
import FeatureRl.Lib.Rounding
import Mathlib.Data.Prod.Lex

/-!
Summaries of a complete trial ledger. Doubles are their exact values, each operation on them
rounded; how the bootstrap draws is left open.
-/

namespace FeatureRl

open Checked Sorting Binary64

structure TrialResult where
  trialId : Identifier
  task : ArtifactRef
  repositoryFamily : Identifier
  arm : ArmName
  policySeed : Nat
  caseSeed : Nat
  resolved : Option Bool
  bundled : task.kind.val = "TaskBundle" ∧ task.encoding = .json ∧ task.schemaVersion = 1

structure ArmCounts where
  arm : ArmName
  assigned : Nat
  valid : Nat
  resolved : Nat
  failed : Nat
  invalid : Nat

namespace Evaluation

/-- A mismatch with the preregistered ledger, or another rejected value. -/
inductive StatisticsFailure where
  | statistics (message : String)
  | value (message : String)
  | index

structure MetricEstimate where
  name : Text
  estimate : Option ℚ
  lower : Option ℚ
  upper : Option ℚ
  sampleSize : Nat
  method : Text
  limitations : List Text
  measured : sampleSize = 0 → estimate = none ∧ lower = none ∧ upper = none
  ordered : ∀ low ∈ lower, ∀ high ∈ upper, low ≤ high

structure EvaluationStatistics where
  arms : List ArmCounts
  metrics : List MetricEstimate
  bootstrapSeed : Nat
  bootstrapResamples : Nat
  limitations : List Text
  filled : arms ≠ [] ∧ metrics ≠ []

/-! ### Estimates -/

/-- The generator of a seed: its draws, each below the bound it is asked for. -/
structure Generator where
  randrange : (seed index bound : Nat) → Nat
  inside : ∀ seed index bound, 0 < bound → randrange seed index bound < bound

/-- The arithmetic mean, exact before it is rounded. -/
def mean (values : List ℚ) : Except StatisticsFailure ℚ :=
  if values = [] then .error (.value "mean requires at least one data point")
  else .ok (rounded (values.sum / values.length))

def item (ordered : List ℚ) (index : Nat) : Except StatisticsFailure ℚ := require ordered[index]? .index

def percentile (values : List ℚ) (fraction : ℚ) : Except StatisticsFailure ℚ := do
  let ordered := sortBy (fun value => value) values
  let position := rounded (rounded (ordered.length - 1) * fraction)
  let lower := ⌊position⌋₊
  let upper := min (lower + 1) (ordered.length - 1)
  let low ← item ordered lower
  let high ← item ordered upper
  .ok (interpolate low high (rounded (position - lower)))

abbrev Groups := Dict Identifier (List ℚ)

def families (groups : Groups) : List Identifier := sortBy Subtype.val groups.keys

def group (groups : Groups) (family : Identifier) : List ℚ := (groups.get? family).getD []

/-- One resample: as many families as there are, each drawn with replacement. -/
def drawFamilies (generator : Generator) (seed resample : Nat) (names : List Identifier) :
    Except StatisticsFailure (List Identifier) :=
  mapAll (fun place => require
    names[generator.randrange seed (resample * names.length + place) names.length]? .index)
    (List.range names.length)

def sample (generator : Generator) (groups : Groups) (seed : Nat) (familyWeighted : Bool) (resample : Nat) :
    Except StatisticsFailure ℚ := do
  let selected ← drawFamilies generator seed resample (families groups)
  if familyWeighted then mapAll (fun family => mean (group groups family)) selected >>= mean
  else mean (selected.flatMap (group groups))

def clusterInterval (generator : Generator) (groups : Groups) (seed resamples : Nat) (familyWeighted : Bool) :
    Except StatisticsFailure (Option ℚ × Option ℚ) :=
  if (families groups).length < 2 then .ok (none, none) else do
    let samples ← mapAll (sample generator groups seed familyWeighted) (List.range resamples)
    let low ← percentile samples (rounded (25 / 1000))
    let high ← percentile samples (rounded (975 / 1000))
    .ok (some low, some high)

def text (words : String) : Except StatisticsFailure Text :=
  if filled : isText words = true then .ok ⟨words, filled⟩ else .error (.value "text must be nonblank")

def MetricEstimate.create (name : String) (estimate lower upper : Option ℚ) (sampleSize : Nat)
    (method : String) (limitations : List Text) : Except StatisticsFailure MetricEstimate := do
  let name ← text name
  let method ← text method
  if measured : sampleSize = 0 → estimate = none ∧ lower = none ∧ upper = none then
    if ordered : ∀ low ∈ lower, ∀ high ∈ upper, low ≤ high then
      .ok ⟨name, estimate, lower, upper, sampleSize, method, limitations, measured, ordered⟩
    else .error (.value "reversed uncertainty interval")
  else .error (.value "zero samples cannot yield measured estimate")

/-- What an estimate is asked for, besides its groups. -/
structure Asked where
  name : String
  familyWeighted : Bool
  sampleSize : Nat
  bootstrapSeed : Nat
  bootstrapResamples : Nat
  limitations : List Text

def fewFamilies : Text :=
  ⟨"fewer than two repository families; uncertainty interval unavailable", by decide⟩

def center (groups : Groups) (familyWeighted : Bool) : Except StatisticsFailure ℚ :=
  if familyWeighted then mapAll mean groups.values >>= mean
  else mean ((families groups).flatMap (group groups))

def estimate (generator : Generator) (groups : Groups) (asked : Asked) :
    Except StatisticsFailure MetricEstimate :=
  if (families groups).flatMap (group groups) = [] then
    MetricEstimate.create asked.name none none none 0 "no valid observations" asked.limitations
  else do
    let middle ← center groups asked.familyWeighted
    let (lower, upper) ← clusterInterval generator groups asked.bootstrapSeed asked.bootstrapResamples
      asked.familyWeighted
    MetricEstimate.create asked.name (some middle) lower upper asked.sampleSize
      "family-clustered percentile bootstrap"
      (asked.limitations ++ if groups.size < 2 then [fewFamilies] else [])

/-! ### The ledger -/

abbrev TaskKey := String × String × Nat

def taskKey (ref : ArtifactRef) : TaskKey := (ref.sha256.val, ref.kind.val, ref.schemaVersion)

abbrev Cell := TaskKey × Nat

abbrev UnitKey := TaskKey × Nat × ArmName

def unitKey (assignment : TrialAssignment) : UnitKey :=
  (taskKey assignment.task, assignment.policySeed, assignment.arm)

structure TrialUnit where
  family : Identifier
  allValue : ℚ
  validValue : Option ℚ

def frozenFamilies (roster : FrozenRoster) : Dict TaskKey Identifier :=
  roster.sources.foldl (fun families source => families.set (taskKey source.task) source.repositoryFamily)
    Dict.empty

def mismatch (message : String) : StatisticsFailure := .statistics message

variable {P B L : Type}

section

local instance lawfulIdentifier : LawfulBEq Identifier := inferInstance

def checkComplete (preregistration : EvaluationPreregistration P B L) (trials : List TrialResult) :
    Except StatisticsFailure Unit :=
  let assigned := preregistration.trials.map TrialAssignment.trialId
  let observed := trials.map TrialResult.trialId
  refuse (observed.length ≠ assigned.length ∨ ¬ observed.Nodup ∨
      ¬ ((∀ trial ∈ observed, trial ∈ assigned) ∧ ∀ trial ∈ assigned, trial ∈ observed))
    (mismatch "every assigned trial must appear exactly once")

end

def differsFrom (trial : TrialResult) : StatisticsFailure :=
  mismatch ("trial " ++ trial.trialId.val ++ " differs from its frozen assignment")

def checkTrial (roster : FrozenRoster) (preregistration : EvaluationPreregistration P B L)
    (trial : TrialResult) : Except StatisticsFailure Unit := do
  let assignment ← require (preregistration.trials.find? fun item => item.trialId = trial.trialId)
    (differsFrom trial)
  refuse (taskKey trial.task ≠ taskKey assignment.task ∨ trial.arm ≠ assignment.arm ∨
      trial.policySeed ≠ assignment.policySeed ∨ trial.caseSeed ≠ assignment.caseSeed ∨
      some trial.repositoryFamily ≠ (frozenFamilies roster).get? (taskKey assignment.task))
    (differsFrom trial)

/-- The trial that was observed for an assignment. -/
def observe (trials : List TrialResult) (assignment : TrialAssignment) :
    Except StatisticsFailure (UnitKey × TrialResult) := do
  let trial ← require (trials.find? fun item => item.trialId = assignment.trialId) .index
  .ok (unitKey assignment, trial)

def resolvedValue (episodes : List TrialResult) : ℚ :=
  if episodes.any (fun trial => trial.resolved = some true) then 1 else 0

def unitOf (preregistration : EvaluationPreregistration P B L) (entry : UnitKey × List TrialResult) :
    Except StatisticsFailure (UnitKey × TrialUnit) := do
  refuse (entry.2.length ≠ preregistration.episodesPerTrial)
    (mismatch "metric unit does not contain the frozen episode count")
  let first ← require entry.2.head? .index
  .ok (entry.1, ⟨first.repositoryFamily, resolvedValue entry.2,
    if entry.2.all (fun trial => trial.resolved.isSome) then some (resolvedValue entry.2) else none⟩)

abbrev Units := List (UnitKey × TrialUnit)

def unitsOf (preregistration : EvaluationPreregistration P B L) (trials : List TrialResult) :
    Except StatisticsFailure Units := do
  let entries ← mapAll (observe trials) preregistration.trials
  mapAll (unitOf preregistration) (Dict.gather entries).entries

/-! ### Metrics -/

structure Bootstrap where
  seed : Nat
  resamples : Nat

def baseLimitations : List Text :=
  [⟨"statistics aggregate supplied observed receipts and do not establish task or policy admission", by decide⟩,
    ⟨"all-assigned rates count invalid and unresolved assigned trials as unsuccessful", by decide⟩,
    ⟨"independently trained replicates are not represented; policy sampling seeds do not measure training variability",
      by decide⟩]

def excludedTrials : Text := ⟨"invalid trials excluded from this denominator", by decide⟩

def excludedPairs : Text := ⟨"pairs with either invalid trial excluded from this denominator", by decide⟩

def metricName (preregistration : EvaluationPreregistration P B L) : String :=
  match preregistration.metric with
  | .passAt1 => "pass_at_1"
  | .bestOfK => "best_of_" ++ toString preregistration.episodesPerTrial

def armUnits (units : Units) (arm : ArmName) : List TrialUnit :=
  (units.filter fun entry => entry.1.2.2 = arm).map Prod.snd

def countsOf (arm : ArmName) (assigned : List TrialUnit) : ArmCounts :=
  let valid := assigned.filter fun item => item.validValue.isSome
  let successes := valid.filter fun item => item.validValue.any fun value => value ≠ 0
  ⟨arm, assigned.length, valid.length, successes.length, valid.length - successes.length,
    assigned.length - valid.length⟩

def allGroups (assigned : List TrialUnit) : Groups :=
  Dict.gather (assigned.map fun item => (item.family, item.allValue))

def validGroups (assigned : List TrialUnit) : Groups :=
  Dict.gather (assigned.filterMap fun item => item.validValue.map fun value => (item.family, value))

def armMetrics (generator : Generator) (bootstrap : Bootstrap) (metric : String) (units : Units)
    (arm : ArmName × Nat) : Except StatisticsFailure (List MetricEstimate) := do
  let assigned := armUnits units arm.1
  let all ← estimate generator (allGroups assigned)
    ⟨metric ++ "/" ++ arm.1.name ++ "/all_assigned", false, assigned.length, bootstrap.seed + arm.2 * 2,
      bootstrap.resamples, baseLimitations⟩
  let valid ← estimate generator (validGroups assigned)
    ⟨metric ++ "/" ++ arm.1.name ++ "/valid_only", false, (countsOf arm.1 assigned).valid,
      bootstrap.seed + arm.2 * 2 + 1, bootstrap.resamples, baseLimitations ++ [excludedTrials]⟩
  .ok [all, valid]

def cellOrder (cell : Cell) : String ×ₗ String ×ₗ Nat ×ₗ Nat :=
  toLex (cell.1.1, toLex (cell.1.2.1, toLex (cell.1.2.2, cell.2)))

/-- Every task and seed of the units, in order. -/
def cellsOf (units : Units) : List Cell :=
  sortBy cellOrder (units.map fun entry => (entry.1.1, entry.1.2.1)).dedup

def unitAt (units : Units) (key : UnitKey) : Option TrialUnit :=
  (units.find? fun item => item.1 = key).map Prod.snd

/-- The difference of two arms in a cell. -/
def pairOf (units : Units) (arms : ArmName × ArmName) (cell : Cell) :
    Except StatisticsFailure TrialUnit := do
  let left ← require (unitAt units (cell.1, cell.2, arms.1)) .index
  let right ← require (unitAt units (cell.1, cell.2, arms.2)) .index
  refuse (left.family ≠ right.family) (mismatch "paired arms disagree on repository family")
  .ok ⟨left.family, rounded (right.allValue - left.allValue),
    left.validValue.bind fun before => right.validValue.map fun after => rounded (after - before)⟩

def pairedMetric (generator : Generator) (bootstrap : Bootstrap) (arms : ArmName × ArmName) (index : Nat)
    (groups : Groups) (population : String) (limitations : List Text) (familyWeighted : Bool) :
    Except StatisticsFailure MetricEstimate :=
  estimate generator groups
    ⟨"paired/" ++ arms.2.name ++ "-" ++ arms.1.name ++ "/" ++
        (if familyWeighted then "family_weighted" else "task_weighted") ++ "/" ++ population,
      familyWeighted, if familyWeighted then groups.size else (groups.values.map List.length).sum,
      bootstrap.seed + 100 + index * 4 + (if familyWeighted then 1 else 0), bootstrap.resamples, limitations⟩

def pairedMetrics (generator : Generator) (bootstrap : Bootstrap) (units : Units)
    (comparison : (ArmName × ArmName) × Nat) : Except StatisticsFailure (List MetricEstimate) := do
  let pairs ← mapAll (pairOf units comparison.1) (cellsOf units)
  let metric := pairedMetric generator bootstrap comparison.1 comparison.2
  let allTask ← metric (allGroups pairs) "all_assigned" baseLimitations false
  let allFamily ← metric (allGroups pairs) "all_assigned" baseLimitations true
  let validTask ← metric (validGroups pairs) "valid_only" (baseLimitations ++ [excludedPairs]) false
  let validFamily ← metric (validGroups pairs) "valid_only" (baseLimitations ++ [excludedPairs]) true
  .ok [allTask, allFamily, validTask, validFamily]

def EvaluationStatistics.create (arms : List ArmCounts) (metrics : List MetricEstimate)
    (bootstrap : Bootstrap) : Except StatisticsFailure EvaluationStatistics :=
  if filled : arms ≠ [] ∧ metrics ≠ [] then
    .ok ⟨arms, metrics, bootstrap.seed, bootstrap.resamples, baseLimitations, filled⟩
  else .error (.value "too short")

def armsOf (preregistration : EvaluationPreregistration P B L) : List ArmName :=
  sortBy ArmName.name (preregistration.arms.map ArmProtocol.arm)

def summarizeTrials (generator : Generator) (bootstrap : Bootstrap) (roster : FrozenRoster)
    (preregistration : EvaluationPreregistration P B L) (trials : List TrialResult) :
    Except StatisticsFailure EvaluationStatistics := do
  refuse (bootstrap.resamples < 1) (.value "bootstrap resamples must be positive")
  checkComplete preregistration trials
  checkAll (checkTrial roster preregistration) trials
  let units ← unitsOf preregistration trials
  let arms := armsOf preregistration
  let rates ← mapAll (armMetrics generator bootstrap (metricName preregistration) units) arms.zipIdx
  let paired ← mapAll (pairedMetrics generator bootstrap units) preregistration.comparisons.zipIdx
  EvaluationStatistics.create (arms.map fun arm => countsOf arm (armUnits units arm))
    (rates.flatten ++ paired.flatten) bootstrap

end Evaluation

end FeatureRl
