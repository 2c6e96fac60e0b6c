import FeatureRl.Contracts.Values
import FeatureRl.Lib.Checked

/-! Verifier plans, the outcomes of the services that grading calls, and grade receipts. -/

namespace FeatureRl

open Checked

namespace Grading

/-! ### Exceptions -/

inductive WorkerReason where
  | completed | commandFailed | timeout | outputLimit | cpuLimit | memoryLimit | sourceRejected
  | sourceUnavailable | setupFailed | infrastructureFailure
deriving DecidableEq

def WorkerReason.name : WorkerReason → String
  | completed => "completed"
  | commandFailed => "command_failed"
  | timeout => "timeout"
  | outputLimit => "output_limit"
  | cpuLimit => "cpu_limit"
  | memoryLimit => "memory_limit"
  | sourceRejected => "source_rejected"
  | sourceUnavailable => "source_unavailable"
  | setupFailed => "setup_failed"
  | infrastructureFailure => "infrastructure_failure"

inductive FailureCategory where
  | none | candidate | infrastructure | unresolved
deriving DecidableEq

structure BuildFailed where
  evidence : ArtifactRef
  reason : WorkerReason
  failureCategory : FailureCategory
  cleanupVerified : Bool

/-- The name of an exception class. -/
abbrev ClassName := {name : String // decide (name.toList.length ≤ 200) = true}

/-- An exception, told apart as far as the handlers of grading do. -/
inductive Raised where
  | dependencyUnavailable (message : String)
  | sourceRejected (message : String)
  | publicationFailed (message : {message : String // message.toList.isEmpty = false})
  | buildFailed (failure : BuildFailed) (message : String)
  | sizeLimit (message : String)
  | infrastructure (name : ClassName) (message : String)
  | value (message : String)
  | other (name : ClassName) (message : String)

namespace Raised

def className : Raised → ClassName
  | dependencyUnavailable _ => ⟨"DependencyUnavailable", rfl⟩
  | sourceRejected _ => ⟨"SourceRejected", rfl⟩
  | publicationFailed _ => ⟨"EvidencePublicationFailed", rfl⟩
  | buildFailed _ _ => ⟨"BuildFailed", rfl⟩
  | sizeLimit _ => ⟨"ArtifactSizeLimitError", rfl⟩
  | infrastructure name _ => name
  | value _ => ⟨"ValueError", rfl⟩
  | other name _ => name

def message : Raised → String
  | dependencyUnavailable message | sourceRejected message | buildFailed _ message
  | sizeLimit message | infrastructure _ message | value message | other _ message => message
  | publicationFailed message => message.val

end Raised

abbrev Checks (α : Type) := Except Raised α

/-! ### Plans -/

/-- A case identifier of a realized plan. -/
def isName (text : String) : Bool := text.toList.length ≤ 128 && isWord ['_', '.', '-'] text

inductive InputMode where
  | tests | output
deriving DecidableEq

structure ProcessObservation where
  exitCode : Int
  stdoutHex : String
  stderrHex : String
deriving DecidableEq

/-- A case of the verifier with its frozen input mode and expected observation. -/
structure PlannedCase where
  caseId : Identifier
  requirementIds : List Identifier
  mode : InputMode
  expected : ProcessObservation

/-- What loading a verifier establishes: up to 64 cases with distinct identifiers, all of
them mandatory. -/
structure LoadedVerifier where
  verifier : ArtifactRef
  cases : List PlannedCase
  outputLimitBytes : Nat
  counted : 1 ≤ cases.length ∧ cases.length ≤ 64
  unique : (cases.map PlannedCase.caseId).Nodup

structure RealizedCase where
  caseId : String
  requirementIds : List String
  mandatory : Bool

def realize (case : PlannedCase) : Checks RealizedCase :=
  if isName case.caseId.val && decide (1 ≤ case.requirementIds.length ∧ case.requirementIds.length ≤ 128) &&
      case.requirementIds.all (fun id => isName id.val) then
    .ok ⟨case.caseId.val, case.requirementIds.map Subtype.val, true⟩
  else .error (.value "validation error")

/-- The cases of the manifest. -/
def materializeManifest (checked : LoadedVerifier) : Checks (List RealizedCase) :=
  foldAll (fun cases case => do
    let realized ← realize case
    .ok (cases ++ [realized])) [] checked.cases

/-! ### Executions -/

structure ExecutionResult where
  reason : WorkerReason
  failureCategory : FailureCategory
  exitCode : Option Int
  stdout : Bytes
  stderr : Bytes
  cleanupVerified : Bool
  evidence : ArtifactRef

def hexDigit (value : Nat) : Char :=
  if value < 10 then Char.ofNat ('0'.toNat + value) else Char.ofNat ('a'.toNat + (value - 10))

def hex (bytes : Bytes) : String :=
  String.ofList (bytes.flatMap fun byte => [hexDigit (byte.toNat / 16), hexDigit (byte.toNat % 16)])

def observe (output : ExecutionResult) (cap : Nat) : Checks ProcessObservation :=
  if output.cleanupVerified = false ∨
      output.failureCategory ∈ [FailureCategory.infrastructure, FailureCategory.unresolved] ∨
      output.reason ∉ [WorkerReason.completed, WorkerReason.commandFailed] then
    .error (.value ("command did not complete cleanly: " ++ output.reason.name))
  else
    match output.exitCode with
    | none => .error (.value ("command did not complete cleanly: " ++ output.reason.name))
    | some exitCode =>
        if cap < output.stdout.length + output.stderr.length then
          .error (.value "command output exceeds bound")
        else .ok ⟨exitCode, hex output.stdout, hex output.stderr⟩

def observationMatches (mode : InputMode) (actual expected : ProcessObservation) : Bool :=
  match mode with
  | .tests => actual.exitCode = expected.exitCode ∧ expected.exitCode = 0
  | .output => actual = expected

/-! ### Receipts -/

structure AssertionResult where
  assertionId : String
  requirementIds : List String
  passed : Bool

inductive CaseStatus where
  | completed | protocolFailure | candidateFailure | notRun | infrastructureFailure
deriving DecidableEq

structure CaseResult where
  caseId : String
  mandatory : Bool
  status : CaseStatus
  passed : Option Bool
  assertions : List AssertionResult
  evidence : Option ArtifactRef
  reason : String

/-- Between one and 1024 characters. -/
def isBoundedReason (text : String) : Bool := 1 ≤ text.toList.length && text.toList.length ≤ 1024

/-- The checks of a case result. -/
def CaseResult.create (result : CaseResult) : Checks CaseResult := do
  refuse (isBoundedReason result.reason = false) (.value "validation error")
  refuse (¬ (result.assertions.map AssertionResult.assertionId).Nodup)
    (.value "duplicate assertion receipts")
  if result.status = .completed then
    refuse (result.assertions = [] ∨ result.evidence = none ∨
        result.passed ≠ some (result.assertions.all AssertionResult.passed))
      (.value "incomplete comparison receipt")
  else
    refuse (result.assertions ≠ [] ∨ result.passed ≠ none)
      (.value "uncompared case cannot claim assertions/pass")
  .ok result

structure GradeReceipt where
  task : ArtifactRef
  submission : ArtifactRef
  verifier : Option ArtifactRef
  caseSeed : Nat
  manifest : Option ArtifactRef
  source : Option ArtifactRef
  disposition : Disposition
  reward : Option Nat
  reason : String
  expectedCaseIds : List String
  cases : List CaseResult
  buildEvidence : Option ArtifactRef
  runtimeEvidence : List ArtifactRef
  cleanupVerified : Bool

/-- The checks of a grade receipt. -/
def GradeReceipt.coherent (receipt : GradeReceipt) : Checks Unit := do
  refuse (2 ^ 63 ≤ receipt.caseSeed ∨ isBoundedReason receipt.reason = false ∨
      receipt.reward.any (fun reward => 1 < reward) = true) (.value "validation error")
  refuse (¬ receipt.expectedCaseIds.Nodup) (.value "duplicate expected cases")
  refuse (receipt.cases.map CaseResult.caseId ≠ receipt.expectedCaseIds)
    (.value "incomplete case ledger")
  refuse ((receipt.disposition = .success ∨ receipt.disposition = .rejected) ↔ receipt.reward = none)
    (.value "unmeasured outcome requires null reward")
  refuse (receipt.reward ≠ none ∧ receipt.cleanupVerified = false)
    (.value "unverified cleanup cannot yield measured reward")
  if receipt.reward = some 1 then do
    refuse (receipt.disposition ≠ .success ∨ receipt.cases = [] ∨ receipt.manifest = none ∨
        receipt.source = none ∨ receipt.buildEvidence = none)
      (.value "passing grade requires complete execution identity")
    refuse (receipt.cases.any CaseResult.mandatory = false) (.value "no required cases")
    refuse (receipt.cases.any (fun case => decide (case.status ≠ .completed) ||
        (case.mandatory && decide (case.passed ≠ some true))) = true)
      (.value "incomplete or failing required cases")
  refuse (receipt.disposition = .success ∧ receipt.reward ≠ some 1)
    (.value "successful grade must have reward one")
  refuse (receipt.disposition = .rejected ∧ receipt.reward ≠ some 0)
    (.value "rejected candidate must have reward zero")

end Grading

end FeatureRl
