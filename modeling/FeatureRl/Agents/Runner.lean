import FeatureRl.Agents.Episodes

/-!
A whole run: the episode, the submission of its saved source, up to three gradings of it, and
the record that is frozen. Every exit builds the record anew.
-/

namespace FeatureRl

open Checked

namespace Agents

variable {S R : Type} [Zero S] [Add S] [LE S] [DecidableLE S]

/-! ### The record -/

structure RolloutRecord (S : Type) where
  task : ArtifactRef
  policy : PolicyConfig
  limits : ResourceLimits S
  caseSeed : Nat
  steps : List EpisodeStep
  submission : Option ArtifactRef
  stoppingReason : StopReason
  disposition : Disposition
  reward : Option Nat
  gradingEvidence : List EvidenceRecord
  trainingEligible : Bool

/-- The disposition that a stop requires. -/
def StopReason.requires : StopReason → Option Disposition
  | .invalidTrajectory => some .invalid
  | .infrastructureFailure => some .infrastructure
  | _ => none

def RolloutRecord.honestRollout (record : RolloutRecord S) : Except Raised Unit := do
  refuse (record.task.kind.val ≠ "TaskBundle") (.value "expected a TaskBundle reference")
  refuse (record.reward.any (fun reward => 1 < reward) = true) (.value "validation error")
  refuse (record.stoppingReason.requires.any (fun expected => record.disposition ≠ expected) = true)
    (.value "stop requires another disposition")
  refuse (record.stoppingReason.requires ≠ none ∧ record.trainingEligible = true)
    (.value "invalid or infrastructure stop cannot be training eligible")
  refuse (record.stoppingReason = .candidateFailure ∧ record.reward ∉ [none, some 0])
    (.value "a measured terminal candidate failure requires zero reward")
  refuse (record.reward ≠ none ∧ record.disposition ∉ [Disposition.success, .rejected])
    (.value "only valid measured outcomes can carry reward")
  refuse (record.reward ≠ none ∧ record.gradingEvidence = [])
    (.value "measured reward requires grading evidence")
  refuse (record.disposition ∈ [Disposition.infrastructure, .invalid, .blocked] ∧ record.reward ≠ none)
    (.value "invalid measurement cannot carry reward")
  refuse (record.trainingEligible = true ∧ (record.reward = none ∨ record.steps = [] ∨
      record.steps.any (fun step => step.tokenTrace.isNone) = true))
    (.value "training requires measured reward and exact token traces")
  refuse (record.trainingEligible = true ∧ record.policy.tokenizerDigest = none)
    (.value "training requires an identified tokenizer")
  refuse (record.trainingEligible = true ∧ record.steps.any (fun step =>
      step.tokenTrace.any fun trace => trace.policyVersion ≠ record.policy.policyVersion) = true)
    (.value "token traces must use the episode behavior policy")

/-! ### Grading -/

/-- A receipt as it is read back. -/
abbrev Receipt := {receipt : Grading.GradeReceipt // receipt.coherent = .ok ()}

structure RunInput (S : Type) where
  task : ArtifactRef
  policy : PolicyConfig
  limits : ResourceLimits S
  caseSeed : Nat

/-- What happens around the loop. A grade that is only left to publish is `none`. -/
structure Controller (S R : Type) extends World S R where
  openWorkspace : Except Raised Unit
  close : Except Raised Unit
  closeAgain : Bool
  resolveReleased : Nat → Except Raised Unit
  submissionOf : Except Raised ArtifactRef
  grade : Nat → ArtifactRef → Except Raised (Option (Receipt × List EvidenceRecord))
  storeOutcome : Except Raised Unit
  own : Int → EvidenceRecord

/-- Grade the same source and seed again after an infrastructure failure, up to `left` times. -/
def gradeFrom (controller : Controller S R) (request : RunInput S) (submission : ArtifactRef) :
    Nat → Nat → Except Raised (Option (Receipt × List EvidenceRecord))
  | 0, _ => .error .recovery
  | left + 1, index =>
      match controller.resolveReleased index with
      | .error failure => .error failure
      | .ok () =>
          match controller.grade index submission with
          | .error failure => .error failure
          | .ok none => .ok none
          | .ok (some (receipt, evidence)) =>
              if (receipt.val.task, receipt.val.submission, receipt.val.caseSeed) ≠
                  (request.task, submission, request.caseSeed) then
                .error (.value "M4 returned a different task/submission/case seed")
              else if receipt.val.disposition = .infrastructure ∧ left ≠ 0 then
                gradeFrom controller request submission left (index + 1)
              else .ok (some (receipt, evidence))

/-! ### Freezing -/

/-- How an episode came out, as far as it differs between the exits. -/
structure Ending where
  submission : Option ArtifactRef
  stop : StopReason
  disposition : Disposition
  reward : Option Nat
  grading : List EvidenceRecord

def recordOf (controller : Controller S R) (request : RunInput S) (steps : List EpisodeStep)
    (ending : Ending) : RolloutRecord S where
  task := request.task
  policy := request.policy
  limits := request.limits
  caseSeed := request.caseSeed
  steps := steps
  submission := ending.submission
  stoppingReason := ending.stop
  disposition := ending.disposition
  reward := ending.reward
  gradingEvidence := ending.grading ++ [controller.own (if ending.reward ≠ none then 0 else 1)]
  trainingEligible := ending.reward.isSome && !steps.isEmpty &&
    steps.all (fun step => step.tokenTrace.isSome) && request.policy.tokenizerDigest.isSome

/-- Store the outcome and construct the record. An unavailable store leaves the frozen state pending. -/
def freeze (controller : Controller S R) (request : RunInput S) (steps : List EpisodeStep)
    (ending : Ending) : Except Raised (RolloutRecord S) :=
  match controller.storeOutcome with
  | .error (.unavailable _) => .error .recovery
  | .error failure => .error failure
  | .ok () =>
      let record := recordOf controller request steps ending
      record.honestRollout.map fun _ => record

/-- A missing reward turns the ending into an invalid or an infrastructure one. -/
def endingOf (stop : StopReason) (submission : ArtifactRef) (receipt : Receipt)
    (grading : List EvidenceRecord) : Ending :=
  match receipt.val.reward with
  | some reward => ⟨some submission, stop, receipt.val.disposition, some reward, grading⟩
  | none =>
      if receipt.val.disposition = .infrastructure then
        ⟨some submission, .infrastructureFailure, .infrastructure, none, grading⟩
      else ⟨some submission, .invalidTrajectory, .invalid, none, grading⟩

/-- Submit, grade and freeze a saved source. -/
def afterSaved (controller : Controller S R) (request : RunInput S) (episode : Episode S) :
    Except Raised (RolloutRecord S) :=
  match controller.resolveReleased 0 with
  | .error failure => .error failure
  | .ok () =>
      match controller.submissionOf with
      | .error (.unavailable _) => .error .recovery
      | .error failure => .error failure
      | .ok submission =>
          match gradeFrom controller request submission 3 0 with
          | .error failure => .error failure
          | .ok none => .error .recovery
          | .ok (some (receipt, grading)) =>
              match controller.resolveReleased 3 with
              | .error failure => .error failure
              | .ok () => freeze controller request episode.steps
                  (endingOf episode.stop submission receipt grading)

/-! ### Runs -/

inductive Outcome (S : Type) where
  | frozen (record : RolloutRecord S)
  | pending
  | raised (failure : Raised)

def asOutcome : Except Raised (RolloutRecord S) → Outcome S
  | .ok record => .frozen record
  | .error .recovery => .pending
  | .error failure => .raised failure

def invalidEnding : Ending := ⟨none, .invalidTrajectory, .invalid, none, []⟩

def infrastructureEnding : Ending := ⟨none, .infrastructureFailure, .infrastructure, none, []⟩

/-- The handlers of a run. An open workspace that cannot be closed is an infrastructure failure. -/
def giveUp (controller : Controller S R) (request : RunInput S) (opened : Bool) (failure : Raised)
    (episode : Episode S) : Outcome S :=
  let unclosed := opened && !controller.closeAgain
  match failure with
  | .recovery => .pending
  | .other message => .raised (.other message)
  | .value _ => asOutcome (freeze controller request episode.steps
      (if unclosed = true then infrastructureEnding else invalidEnding))
  | .unavailable _ => asOutcome (freeze controller request episode.steps infrastructureEnding)

/-- A saved episode. A failure after the workspace is closed is handled like one of the loop. -/
def finish (controller : Controller S R) (request : RunInput S) (episode : Episode S) : Outcome S :=
  match controller.close with
  | .error failure => giveUp controller request true failure episode
  | .ok () =>
      match afterSaved controller request episode with
      | .error failure => giveUp controller request false failure episode
      | .ok record => .frozen record

/-- The released task is resolved first, which needs a task bundle. -/
def openEpisode (controller : Controller S R) (request : RunInput S) : Except Raised Unit :=
  if request.task.kind.val ≠ "TaskBundle" then .error (.value "expected a TaskBundle reference")
  else controller.openWorkspace

def run (controller : Controller S R) (request : RunInput S) (steps : Nat) :
    Option (Outcome S × Episode S) :=
  match openEpisode controller request with
  | .error failure => some (giveUp controller request false failure .start, .start)
  | .ok () =>
      match loop controller.toWorld request.policy request.limits steps .start with
      | none => none
      | some (episode, none) => some (finish controller request episode, episode)
      | some (episode, some failure) => some (giveUp controller request true failure episode, episode)

end Agents

end FeatureRl
