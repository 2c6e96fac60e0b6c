import FeatureRl.Grading.Models
import FeatureRl.Lib.Effects

/-!
Grading: rebuild from source, fresh observations, external comparison. The services that
grading calls are given by their outcomes in one run; every outcome is recorded as an event.
-/

namespace FeatureRl

open Checked

namespace Grading

/-- What each service call of one run returns or raises. `late` says before which case the
wall budget is used up; a publication that fails again is `none`. -/
structure Services where
  loadVerifier : Checks LoadedVerifier
  selectTask : Checks Unit
  putManifest : Checks ArtifactRef
  resolve : Checks Unit
  putSource : Checks ArtifactRef
  recipe : Checks Unit
  openWorkspace : Checks Unit
  buildSnapshot : Checks ArtifactRef
  late : Nat → Bool
  executionRequest : Nat → Checks Unit
  execute : Nat → Checks ExecutionResult
  close : Checks Unit
  retryPublication : Checks (Option ArtifactRef)
  putReceipt : Checks Unit

/-- What has happened in a run. -/
inductive Event where
  | raised (exception : Raised)
  | submissionRejected
  | built
  | buildFailed (failure : BuildFailed)
  | budgetExceeded
  | worker (output : ExecutionResult)
  | matched (index : Nat)
  | mismatched (index : Nat)
  | protocolViolation (index : Nat)
  | closed
  | closeFailed

/-- The local variables of a run. -/
structure Progress where
  verifier : Option ArtifactRef
  manifest : Option ArtifactRef
  source : Option ArtifactRef
  buildEvidence : Option ArtifactRef
  runtimeEvidence : List ArtifactRef
  runtimePublications : Nat
  results : List CaseResult
  opened : Bool
  cleanup : Bool
  disposition : Disposition
  reward : Option Nat
  reason : String
  events : List Event

def Progress.start : Progress :=
  ⟨none, none, none, none, [], 0, [], false, true, .invalid, none, "grading did not complete", []⟩

abbrev Run := Effects Progress Raised

def note (event : Event) : Run Unit :=
  Effects.modify fun progress => { progress with events := progress.events ++ [event] }

def judge (disposition : Disposition) (reward : Option Nat) (reason : String) : Run Unit :=
  Effects.modify fun progress => { progress with disposition, reward, reason }

/-- A service call. -/
def call {α : Type} (outcome : Checks α) : Run α :=
  match outcome with
  | .ok value => pure value
  | .error exception => do
      note (.raised exception)
      Effects.lift (.error exception)

def clip (count : Nat) (text : String) : String := String.ofList (text.toList.take count)

def setResult (index : Nat) (result : CaseResult) : Run Unit := do
  let made ← Effects.lift (CaseResult.create result)
  Effects.modify fun progress => { progress with results := progress.results.set index made }

def addEvidence (evidence : ArtifactRef) : Run Unit :=
  Effects.modify fun progress => { progress with runtimeEvidence := progress.runtimeEvidence ++ [evidence] }

/-! ### Cases -/

def compare (checked : LoadedVerifier) (index : Nat) (planned : PlannedCase) (case : RealizedCase)
    (output : ExecutionResult) : Run Unit := do
  let observed ← Effects.lift (observe output checked.outputLimitBytes)
  let passed := observationMatches planned.mode observed planned.expected
  setResult index ⟨case.caseId, case.mandatory, .completed, some passed,
    [⟨"reference-match", case.requirementIds, passed⟩], some output.evidence, "compared externally"⟩
  note (if passed then .matched index else .mismatched index)
  if case.mandatory = true ∧ passed = false then
    judge .rejected (some 0) "required comparison failed"
  else pure ()

/-- A value error while comparing is a protocol violation of the candidate. -/
def compareOrReject (checked : LoadedVerifier) (index : Nat) (planned : PlannedCase) (case : RealizedCase)
    (output : ExecutionResult) : Run Unit :=
  (compare checked index planned case output).catching fun exception =>
    match exception with
    | .value message => do
        let reason := "observation protocol violation: " ++ clip 800 message
        note (.protocolViolation index)
        judge .rejected (some 0) reason
        setResult index ⟨case.caseId, case.mandatory, .protocolFailure, none, [], some output.evidence,
          reason⟩
    | _ => Effects.lift (.error exception)

def gradeCases (services : Services) (checked : LoadedVerifier) :
    Nat → List (PlannedCase × RealizedCase) → Run Unit
  | _, [] => pure ()
  | index, (planned, case) :: rest =>
      if services.late index = true then do
        note .budgetExceeded
        judge .rejected (some 0) "declared total grading wall budget exceeded"
      else do
        call (services.executionRequest index)
        let output ← call (services.execute index)
        note (.worker output)
        addEvidence output.evidence
        Effects.modify fun progress => { progress with cleanup := output.cleanupVerified }
        if output.cleanupVerified = false ∨
            output.failureCategory ∈ [FailureCategory.infrastructure, FailureCategory.unresolved] then do
          let reason := "worker " ++ output.reason.name
          judge (if output.cleanupVerified = true ∧ output.failureCategory = .unresolved then .invalid
            else .infrastructure) none reason
          setResult index ⟨case.caseId, case.mandatory, .infrastructureFailure, none, [],
            some output.evidence, reason⟩
        else if output.reason ∉ [WorkerReason.completed, WorkerReason.commandFailed] then do
          let reason := "candidate " ++ output.reason.name
          judge .rejected (some 0) reason
          setResult index ⟨case.caseId, case.mandatory, .candidateFailure, none, [],
            some output.evidence, reason⟩
          gradeCases services checked (index + 1) rest
        else do
          compareOrReject checked index planned case output
          gradeCases services checked (index + 1) rest

/-! ### Building -/

def notRun (case : RealizedCase) : CaseResult :=
  ⟨case.caseId, case.mandatory, .notRun, none, [], none, "not executed"⟩

/-- A failed build is attributed by its category, if its cleanup is verified. -/
def rejectBuild (failure : BuildFailed) : Run Unit := do
  note (.buildFailed failure)
  Effects.modify fun progress => { progress with
    buildEvidence := some failure.evidence
    cleanup := failure.cleanupVerified }
  addEvidence failure.evidence
  let disposition :=
    if failure.failureCategory = .unresolved ∧ failure.cleanupVerified = true then Disposition.invalid
    else if failure.failureCategory = .candidate ∧ failure.cleanupVerified = true then .rejected
    else .infrastructure
  judge disposition (if disposition = .rejected then some 0 else none) ("build " ++ failure.reason.name)

def buildAndGrade (services : Services) (checked : LoadedVerifier) (cases : List RealizedCase) :
    Run Unit :=
  match services.buildSnapshot with
  | .error (.buildFailed failure _) => rejectBuild failure
  | outcome => do
      let evidence ← call outcome
      note .built
      Effects.modify fun progress => { progress with buildEvidence := some evidence }
      addEvidence evidence
      judge .success (some 1) "all repository observations match frozen H outputs"
      gradeCases services checked 0 (checked.cases.zip cases)

def gradeSubmission (services : Services) (checked : LoadedVerifier) (cases : List RealizedCase) :
    Run Unit := do
  let source ← call services.putSource
  Effects.modify fun progress => { progress with source := some source }
  call services.recipe
  call services.openWorkspace
  Effects.modify fun progress => { progress with opened := true }
  buildAndGrade services checked cases

def rejectSubmission (message : String) : Run Unit := do
  note .submissionRejected
  judge .rejected (some 0) ("source submission rejected: " ++ clip 800 message)

def attempt (services : Services) : Run Unit := do
  let checked ← call services.loadVerifier
  call services.selectTask
  Effects.modify fun progress => { progress with verifier := some checked.verifier }
  let cases ← call (materializeManifest checked)
  let results ← Effects.lift (foldAll (fun results case => do
    let result ← CaseResult.create (notRun case)
    .ok (results ++ [result])) [] cases)
  Effects.modify fun progress => { progress with results }
  let manifest ← call services.putManifest
  Effects.modify fun progress => { progress with manifest := some manifest }
  match services.resolve with
  | .error (.sourceRejected message) | .error (.sizeLimit message) => rejectSubmission message
  | outcome => do
      call outcome
      gradeSubmission services checked cases

/-! ### The whole run -/

/-- The handlers, from first to last. -/
def handle (services : Services) (exception : Raised) : Run Unit :=
  match exception with
  | .dependencyUnavailable message =>
      judge .invalid none ("offline dependency resolution unavailable: " ++ clip 800 message)
  | .sourceRejected message =>
      judge .rejected (some 0) ("candidate declarations rejected: " ++ clip 800 message)
  | .publicationFailed message => do
      judge .infrastructure none (clip 900 message.val)
      let published ← Effects.lift services.retryPublication
      match published with
      | some evidence => addEvidence evidence
      | none => Effects.modify fun progress =>
          { progress with runtimePublications := progress.runtimePublications + 1 }
  | .value message => judge .unsupported none ("invalid or unsupported verifier: " ++ clip 800 message)
  | .other _ _ => Effects.lift (.error exception)
  | _ => judge .infrastructure none (exception.className.val ++ ": " ++ clip 800 exception.message)

def closeWorkspace (services : Services) : Run Unit := do
  let progress ← Effects.read
  if progress.opened = true then
    match services.close with
    | .ok () => note .closed
    | .error exception => do
        note .closeFailed
        Effects.modify fun progress => { progress with cleanup := false }
        judge .infrastructure none ("workspace cleanup unverified: " ++ exception.className.val ++ ": " ++
          clip 700 exception.message)
  else pure ()

def assess (services : Services) : Run Unit :=
  ((attempt services).catching (handle services)).finishing (closeWorkspace services)

/-- A receipt that was published, or one that a failed publication keeps for a retry. -/
inductive Graded where
  | published (receipt : GradeReceipt)
  | retained (receipt : GradeReceipt)

def Graded.receipt : Graded → GradeReceipt
  | published receipt | retained receipt => receipt

def receiptOf (task submission : ArtifactRef) (caseSeed : Nat) (progress : Progress) : GradeReceipt where
  task
  submission
  verifier := progress.verifier
  caseSeed
  manifest := progress.manifest
  source := progress.source
  disposition := progress.disposition
  reward := progress.reward
  reason := progress.reason
  expectedCaseIds := progress.results.map CaseResult.caseId
  cases := progress.results
  buildEvidence := progress.buildEvidence
  runtimeEvidence := progress.runtimeEvidence
  cleanupVerified := progress.cleanup

def publish (services : Services) (progress : Progress) (receipt : GradeReceipt) : Graded :=
  if progress.runtimePublications ≠ 0 then .retained receipt
  else
    match services.putReceipt with
    | .ok () => .published receipt
    | .error _ => .retained receipt

def grade (services : Services) (task submission : ArtifactRef) (caseSeed : Nat) : Checks Graded := do
  refuse (2 ^ 63 ≤ caseSeed) (.value "case seed exceeds supported 63-bit domain")
  match assess services Progress.start with
  | (.error exception, _) => .error exception
  | (.ok (), progress) => do
      let receipt := receiptOf task submission caseSeed progress
      receipt.coherent
      .ok (publish services progress receipt)

end Grading

end FeatureRl
