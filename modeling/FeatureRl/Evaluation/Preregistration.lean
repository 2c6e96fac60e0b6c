import FeatureRl.Evaluation.Freeze

/-!
Preregistered evaluations: two arms that share everything but their training, and a ledger with
one trial for every task, arm, seed and episode.
-/

namespace FeatureRl

open Checked

inductive ArmName where
  | base | featureGrpo
deriving DecidableEq

def ArmName.name : ArmName → String
  | base => "base"
  | featureGrpo => "feature_grpo"

inductive ArmMethod where
  | starting | factoryRl
deriving DecidableEq

inductive Metric where
  | passAt1 | bestOfK
deriving DecidableEq

structure SeedPolicy where
  algorithm : Text
  seeds : List Nat
  sameCasesWithinGroup : Bool
  nonempty : seeds ≠ []
deriving DecidableEq

/-- An arm, for policies of type `P` and budgets of type `B`, which are compared only. -/
structure ArmProtocol (P B : Type) where
  arm : ArmName
  method : ArmMethod
  policy : P
  checkpoint : ArtifactRef
  trainingConfig : Option ArtifactRef
  initialCheckpoint : ArtifactRef
  tools : ArtifactRef
  actionFormat : Identifier
  optimizerFamily : Identifier
  harnessVersion : Text
  trainingBudget : Option B
  developmentBudget : B

structure TrialAssignment where
  trialId : Identifier
  task : ArtifactRef
  arm : ArmName
  policySeed : Nat
  caseSeed : Nat
  episodeIndex : Nat
  bundled : task.kind.val = "TaskBundle"
  bounded : caseSeed < 2 ^ 63

structure EvaluationPreregistration (P B L : Type) where
  arms : List (ArmProtocol P B)
  trials : List TrialAssignment
  limits : L
  seeds : SeedPolicy
  metric : Metric
  episodesPerTrial : Nat
  harnessVersion : Text
  checkpointSelectionRule : Text
  invalidTrialRule : Text
  comparisons : List (ArmName × ArmName)
  filled : arms ≠ [] ∧ trials ≠ [] ∧ comparisons ≠ []
  positive : 0 < episodesPerTrial
  uniqueArms : (arms.map ArmProtocol.arm).Nodup
  uniqueTrials : (trials.map TrialAssignment.trialId).Nodup
  single : metric = .passAt1 → episodesPerTrial = 1

structure EvaluationArm (P : Type) where
  arm : ArmName
  policy : P
  checkpoint : ArtifactRef
  trainingConfig : Option ArtifactRef

structure EvaluationConfig (P L : Type) where
  tasks : List ArtifactRef
  arms : List (EvaluationArm P)
  limits : L
  seeds : SeedPolicy
  partition : Partition
  harnessVersion : Text
  checkpointSelectionRule : Text
  invalidTrialRule : Text
  metric : Metric
  episodesPerTrial : Nat
  filled : tasks ≠ [] ∧ arms ≠ []
  single : metric = .passAt1 → episodesPerTrial = 1
  uniqueArms : (arms.map EvaluationArm.arm).Nodup

namespace Evaluation

variable {P B L : Type} [DecidableEq P] [DecidableEq B] [DecidableEq L]

/-- The first fifteen digits of a digest as a number. -/
def hexPrefix (digest : Digest) : Nat :=
  (digest.val.toList.take 15).foldl (fun number digit => 16 * number + (Json.hexValue digit).getD 0) 0

def refKeyJson (ref : ArtifactRef) : Json :=
  .arr [.str ref.sha256.val, .int ref.schemaVersion, .str ref.kind.val]

/-- The seed that an episode samples with. -/
def episodeSamplingSeed (sha256 : Bytes → Digest) (preregistration : EvaluationPreregistration P B L)
    (assignment : TrialAssignment) : Nat :=
  match preregistration.metric with
  | .passAt1 => assignment.policySeed
  | .bestOfK => hexPrefix (sha256 (Json.arr [.str "m8-best-of-k-episode-seed-v1",
      .str preregistration.seeds.algorithm.val, .int assignment.policySeed, refKeyJson assignment.task,
      .int assignment.episodeIndex]).canonical)

abbrev CellKey := (String × Nat × String) × Nat × Nat

def cellKey (trial : TrialAssignment) : CellKey := (refKey trial.task, trial.policySeed, trial.episodeIndex)

def frozenStudy (message : String) : FreezeError := .frozenStudy message

/-- The protocols of the two arms. -/
structure Protocols (P B : Type) where
  base : ArmProtocol P B
  featureGrpo : ArmProtocol P B

def Protocols.get (protocols : Protocols P B) : ArmName → ArmProtocol P B
  | .base => protocols.base
  | .featureGrpo => protocols.featureGrpo

def Protocols.differ {α : Type} [DecidableEq α] (protocols : Protocols P B) (field : ArmProtocol P B → α) :
    Bool := field protocols.base ≠ field protocols.featureGrpo

def missingArms : FreezeError := frozenStudy "evaluation requires base and feature-env GRPO"

/-- Exactly the two arms must be there, in the protocols and in the configuration. -/
def protocolsOf (preregistration : EvaluationPreregistration P B L) (config : EvaluationConfig P L) :
    Except FreezeError (Protocols P B) := do
  let base ← require (preregistration.arms.find? fun item => item.arm = .base) missingArms
  let featureGrpo ← require (preregistration.arms.find? fun item => item.arm = .featureGrpo) missingArms
  refuse (config.arms.all (fun item => item.arm ≠ .base) = true ∨
    config.arms.all (fun item => item.arm ≠ .featureGrpo) = true) missingArms
  .ok ⟨base, featureGrpo⟩

def checkArm (protocols : Protocols P B) (arm : EvaluationArm P) : Except FreezeError Unit :=
  refuse (arm.policy ≠ (protocols.get arm.arm).policy ∨ arm.checkpoint ≠ (protocols.get arm.arm).checkpoint ∨
      arm.trainingConfig ≠ (protocols.get arm.arm).trainingConfig)
    (frozenStudy ("configured arm " ++ arm.arm.name ++ " differs from its preregistered protocol"))

def checkProtocols (protocols : Protocols P B) : Except FreezeError Unit := do
  refuse (protocols.featureGrpo.initialCheckpoint ≠ protocols.base.initialCheckpoint)
    (frozenStudy "all arms must share the same initial checkpoint")
  refuse (protocols.base.checkpoint ≠ protocols.base.initialCheckpoint ∨
      protocols.base.trainingConfig ≠ none ∨ protocols.base.trainingBudget ≠ none)
    (frozenStudy "base arm must be the untrained starting checkpoint")
  refuse (protocols.featureGrpo.trainingConfig = none ∨ protocols.featureGrpo.trainingBudget = none)
    (frozenStudy "feature-env GRPO requires a frozen training configuration and budget")
  refuse (protocols.differ (fun item => item.tools) = true ∨ protocols.differ (fun item => item.actionFormat) = true ∨
      protocols.differ (fun item => item.optimizerFamily) = true ∨
      protocols.differ (fun item => item.harnessVersion) = true ∨
      protocols.differ (fun item => item.developmentBudget) = true)
    (frozenStudy "all arms must share tools, actions, optimizer, harness, and development budget")

def checkLocked (differs : Bool) (label : String) : Except FreezeError Unit :=
  refuse (differs = true) (frozenStudy ("configured " ++ label ++ " differs from preregistration"))

def checkLockedValues (preregistration : EvaluationPreregistration P B L) (config : EvaluationConfig P L) :
    Except FreezeError Unit := do
  checkLocked (preregistration.limits ≠ config.limits) "resource limits"
  checkLocked (preregistration.seeds ≠ config.seeds) "seed policy"
  checkLocked (preregistration.metric ≠ config.metric) "metric"
  checkLocked (preregistration.episodesPerTrial ≠ config.episodesPerTrial) "episode count"
  checkLocked (preregistration.harnessVersion ≠ config.harnessVersion) "harness version"
  checkLocked (preregistration.checkpointSelectionRule ≠ config.checkpointSelectionRule) "checkpoint rule"
  checkLocked (preregistration.invalidTrialRule ≠ config.invalidTrialRule) "invalid-trial rule"

abbrev TrialKey := (String × Nat × String) × ArmName × Nat × Nat

def trialKey (trial : TrialAssignment) : TrialKey :=
  (refKey trial.task, trial.arm, trial.policySeed, trial.episodeIndex)

/-- Every task, arm, seed and episode. -/
def expectedTrials (roster : FrozenRoster) (preregistration : EvaluationPreregistration P B L) :
    List TrialKey :=
  roster.lockedTasks.flatMap fun task => preregistration.arms.flatMap fun protocol =>
    preregistration.seeds.seeds.flatMap fun seed =>
      (List.range preregistration.episodesPerTrial).map fun episode =>
        (refKey task, protocol.arm, seed, episode)

def checkTrials (roster : FrozenRoster) (preregistration : EvaluationPreregistration P B L) :
    Except FreezeError Unit :=
  let expected := expectedTrials roster preregistration
  let actual := preregistration.trials.map trialKey
  refuse (¬ ((∀ key ∈ actual, key ∈ expected) ∧ (∀ key ∈ expected, key ∈ actual) ∧ actual.Nodup))
    (frozenStudy "assigned trial roster is not the complete frozen Cartesian product")

/-- Some two trials are related so. -/
def anyPair (trials : List TrialAssignment) (related : TrialAssignment → TrialAssignment → Bool) : Bool :=
  trials.any fun one => trials.any fun two => related one two

def checkSeeds (sha256 : Bytes → Digest) (preregistration : EvaluationPreregistration P B L) :
    Except FreezeError Unit := do
  refuse (preregistration.metric = .bestOfK ∧ anyPair preregistration.trials (fun one two =>
      cellKey one ≠ cellKey two ∧ episodeSamplingSeed sha256 preregistration one =
        episodeSamplingSeed sha256 preregistration two) = true)
    (frozenStudy "best-of-k episode sampling seed collision")
  refuse (anyPair preregistration.trials (fun one two =>
      cellKey one = cellKey two ∧ one.caseSeed ≠ two.caseSeed) = true)
    (frozenStudy "paired case seed must be identical across arms")

def validatePreregistration (sha256 : Bytes → Digest) (roster : FrozenRoster)
    (preregistration : EvaluationPreregistration P B L) (config : EvaluationConfig P L) :
    Except FreezeError (EvaluationPreregistration P B L) := do
  let _ ← validateLineageFreeze sha256 roster
  refuse (config.partition ≠ .lockedTest)
    (frozenStudy "frozen evaluation must use the locked-test partition")
  refuse (config.tasks.map refKey ≠ roster.lockedTasks.map refKey)
    (frozenStudy "evaluation tasks differ from the frozen roster")
  let protocols ← protocolsOf preregistration config
  refuse (protocols.base.method ≠ .starting ∨ protocols.featureGrpo.method ≠ .factoryRl)
    (frozenStudy "arm method differs from the frozen study")
  checkAll (checkArm protocols) config.arms
  checkProtocols protocols
  checkLockedValues preregistration config
  checkTrials roster preregistration
  checkSeeds sha256 preregistration
  refuse (preregistration.comparisons.any (fun pair => pair.1 = pair.2) = true)
    (frozenStudy "comparison references invalid arms")
  .ok preregistration

/-! ### What is accepted -/

/-- The ledger of an accepted preregistration. -/
structure Preregistered (roster : FrozenRoster) (preregistration : EvaluationPreregistration P B L) : Prop where
  uniqueTasks : (roster.lockedTasks.map refKey).Nodup
  sourced : ∀ task ∈ roster.lockedTasks, ∃ source ∈ roster.sources, refKey source.task = refKey task
  bothArms : ∀ arm : ArmName, arm ∈ preregistration.arms.map ArmProtocol.arm
  assigned : ∀ key, key ∈ preregistration.trials.map trialKey ↔ key ∈ expectedTrials roster preregistration
  uniqueKeys : (preregistration.trials.map trialKey).Nodup

theorem locked_of_validate {sha256 : Bytes → Digest} {roster result : FrozenRoster}
    (accepted : validateLineageFreeze sha256 roster = .ok result) :
    (roster.lockedTasks.map refKey).Nodup ∧
      ∀ task ∈ roster.lockedTasks, ∃ source ∈ roster.sources, refKey source.task = refKey task := by
  simp only [validateLineageFreeze, bind_eq_ok, refuse_eq_ok, not_not] at accepted
  obtain ⟨_, _, relations, _, manifest, _, _, ⟨included, _, unique⟩, _⟩ := accepted
  refine ⟨unique, fun task member => ?_⟩
  obtain ⟨source, listed, same⟩ := List.mem_map.mp (included _ (List.mem_map_of_mem member))
  exact ⟨source, List.mem_of_mem_filter listed, same⟩

omit [DecidableEq P] [DecidableEq B] [DecidableEq L] in
theorem protocolsOf_eq_ok {preregistration : EvaluationPreregistration P B L} {config : EvaluationConfig P L}
    {protocols : Protocols P B} (found : protocolsOf preregistration config = .ok protocols) (arm : ArmName) :
    arm ∈ preregistration.arms.map ArmProtocol.arm := by
  simp only [protocolsOf, bind_eq_ok, require_eq_ok] at found
  obtain ⟨base, first, featureGrpo, second, _⟩ := found
  have named {name : ArmName} {protocol : ArmProtocol P B}
      (listed : preregistration.arms.find? (fun item => item.arm = name) = some protocol) :
      name ∈ preregistration.arms.map ArmProtocol.arm :=
    List.mem_map.mpr ⟨protocol, List.mem_of_find?_eq_some listed, by simpa using List.find?_some listed⟩
  cases arm with
  | base => exact named first
  | featureGrpo => exact named second

theorem preregistered_of_validate {sha256 : Bytes → Digest} {roster : FrozenRoster}
    {preregistration result : EvaluationPreregistration P B L} {config : EvaluationConfig P L}
    (accepted : validatePreregistration sha256 roster preregistration config = .ok result) :
    Preregistered roster preregistration := by
  simp only [validatePreregistration, checkTrials, bind_eq_ok, refuse_eq_ok, not_not] at accepted
  obtain ⟨_, frozen, _, _, _, _, protocols, found, _, _, _, _, _, _, _, _, _, ⟨known, complete, unique⟩, _⟩ :=
    accepted
  obtain ⟨uniqueTasks, sourced⟩ := locked_of_validate frozen
  exact ⟨uniqueTasks, sourced, protocolsOf_eq_ok found, fun key => ⟨known key, complete key⟩, unique⟩

end Evaluation

end FeatureRl
