import FeatureRl.Pipeline.PendingGrades
import FeatureRl.Registry.JobEnds

/-!
Grade jobs: the calls that dispatch the grader, retain what it could not publish, recover it and complete the
job, over one registry and one artifact store.
-/

namespace FeatureRl

open Checked
open Artifacts (ArtifactStore Hashing)
open Fields (field)

namespace GradeJobs

/-! ### Records -/

structure FrozenGrade where
  claim : Claim
  request : ArtifactRef
  original : ArtifactRef
  costs : List CostRecord

def FrozenGrade.fields : Fields FrozenGrade :=
  (field "version" (literal "m6-frozen-grade-v1") |>.and <| field "claim" Claim.codec |>.and <|
    field "request" ArtifactRef.codec |>.and <| field "original" ArtifactRef.codec |>.and <|
    field "costs" (Codec.tuple CostRecord.codec)).view
    (fun frozen => (⟨"m6-frozen-grade-v1", by decide⟩, frozen.claim, frozen.request, frozen.original, frozen.costs))
    (fun (_, claim, request, original, costs) => some ⟨claim, request, original, costs⟩)
    (fun _ => rfl)

def FrozenGrade.codec : Codec FrozenGrade := FrozenGrade.fields.codec (by decide)

structure PendingGradeResult where
  claim : Claim
  request : ArtifactRef
  result : OperationResult

def PendingGradeResult.fields : Fields PendingGradeResult :=
  (field "version" (literal "m6-pending-grade-result-v1") |>.and <| field "claim" Claim.codec |>.and <|
    field "request" ArtifactRef.codec |>.and <| field "result" OperationResult.codec).view
    (fun pending => (⟨"m6-pending-grade-result-v1", by decide⟩, pending.claim, pending.request, pending.result))
    (fun (_, claim, request, result) => some ⟨claim, request, result⟩)
    (fun _ => rfl)

def PendingGradeResult.codec : Codec PendingGradeResult := PendingGradeResult.fields.codec (by decide)

/-! ### Costs -/

theorem unknown_consistent : measurementConsistency .unknown (List.replicate 7 false) = true := rfl

def unknownCost (category : CostCategory) (note : Text) : CostRecord where
  category := category
  wallSeconds := none
  cpuSeconds := none
  gpuSeconds := none
  inputTokens := none
  outputTokens := none
  humanMinutes := none
  usd := none
  measurement := .unknown
  note := note
  consistent := unknown_consistent

/-- One selected grade job: its request, its specification and the services it runs with. -/
structure Setting where
  sha256 : Bytes → Digest
  hashing : Hashing
  graderRevision : Revision
  collapseCosts : List CostRecord → List CostRecord
  task : ArtifactRef
  submission : ArtifactRef
  caseSeed : Nat
  request : ArtifactRef
  spec : JobSpec
  operation : spec.operation = .grade
  inputs : spec.inputs.val = [task, submission, request]
  attemptLimit : spec.attemptLimit.val = 1
  kind : request.kind.val = "m6-grade-request"

variable (setting : Setting)

def Setting.key : Digest := State.jobKey setting.sha256 setting.spec

/-- The costs of the grader, with the channels it did not measure. -/
def Setting.actualCosts (costs : List CostRecord) : List CostRecord :=
  setting.collapseCosts (costs ++
    (([.construction, .execution, .verifier].filter fun category =>
        category ∉ costs.map CostRecord.category).map fun category =>
      unknownCost category ⟨"M4 did not return a separate measurement for this channel", by decide +kernel⟩) ++
    [unknownCost .storage
      ⟨"Factory/Registry publication overhead and monetary allocation remain unknown", by decide +kernel⟩])

def intentCosts : List CostRecord :=
  [.construction, .execution, .storage, .verifier].map fun category =>
    unknownCost category ⟨"Actual M4 call not yet reconciled", by decide +kernel⟩

/-! ### Checks -/

def Validated (state : State) (claim : Claim) (job : JobRecord) : Prop :=
  state.jobs.get? claim.jobId = some job ∧ job.spec = setting.spec ∧
    ∃ id ∈ job.attempts, ∃ item, state.attempts.get? id = some item ∧ item.claim = claim

def observations (state : State) (claim : Claim) : Outcome (List ObservationRecord) := do
  let report ← state.accounting claim.jobId
  .ok (report.observations.filter fun item => item.attemptId = claim.attemptId)

/-- The only snapshot of the attempt. -/
def Snapshot (state : State) (claim : Claim) (item : ObservationRecord) : Prop :=
  observations state claim = .ok [item] ∧ item.observation.source.val = "m6-grade"

structure IsObservation (claim : Claim) (revision : Nat) (receipts : List ArtifactRef) (costs : List CostRecord)
    (observation : CostObservation) : Prop where
  source : observation.source.val = "m6-grade"
  upstream : observation.upstreamAttemptId.val = claim.attemptId.val
  revision : observation.revision.val = revision
  receipts : observation.receipts.val = receipts.eraseDups
  same_costs : observation.costs = costs

/-- Observing references adds them to the receipts of the snapshot. The registry refuses a stale reading, and
one that finds its own event does nothing. -/
inductive Observes (state : State) (claim : Claim) (refs : List ArtifactRef) (costs : List CostRecord) :
    State → Prop
  | first {data : Json.Members} {observation : CostObservation} {next : State}
      (absent : observations state claim = .ok [])
      (decoded : Claim.codec.validate (member data "claim") = some claim)
      (observed : CostObservation.codec.validate (member data "observation") = some observation)
      (is : IsObservation claim 1 refs costs observation)
      (event : State.Step setting.sha256 state data .reconcile next) : Observes state claim refs costs next
  | further {item : ObservationRecord} {data : Json.Members} {observation : CostObservation} {next : State}
      (snapshot : Snapshot state claim item)
      (decoded : Claim.codec.validate (member data "claim") = some claim)
      (observed : CostObservation.codec.validate (member data "observation") = some observation)
      (is : IsObservation claim (item.observation.revision.val + 1) (item.observation.receipts.val ++ refs) costs
        observation)
      (event : State.Step setting.sha256 state data .reconcile next) : Observes state claim refs costs next
  | again {item : ObservationRecord} (present : item ∈ state.observations.values)
      (own : item.attemptId = claim.attemptId) (linked : refs ⊆ item.observation.receipts.val)
      (same_costs : item.observation.costs = costs) : Observes state claim refs costs state

/-- A result that is the published grade of the request. -/
structure Verifies (store : ArtifactStore) (result : OperationResult) : Prop where
  operation : result.operation = .grade
  published : ∃ ref evidence raw receipt, result.artifacts = [ref] ∧ result.evidence = [evidence] ∧
    readBytes setting.hashing store ref (4 * 1024 * 1024) receiptKind = .ok raw ∧
    StoredReceipt.codec.validateJson raw = some receipt ∧
    receipt.grade.task = setting.task ∧ receipt.grade.submission = setting.submission ∧
    receipt.grade.caseSeed = setting.caseSeed ∧ receipt.implementationRevision = setting.graderRevision ∧
    result.disposition = receipt.grade.disposition ∧ result.reason.val = receipt.grade.reason ∧
    evidence.producer.val = "feature_rl.grading" ∧ evidence.recordedAt = receipt.recordedAt ∧
    evidence.revision = setting.graderRevision ∧ evidence.artifacts = ref :: receipt.grade.runtimeEvidence ∧
    evidence.command.map Subtype.val = ["GradingService.grade", receipt.grade.task.sha256.val,
      receipt.grade.submission.sha256.val, toString receipt.grade.caseSeed] ∧
    ∀ runtime ∈ receipt.grade.runtimeEvidence, runtime.kind.val = "environment-execution" →
      ∃ bytes, readBytes setting.hashing store runtime maxRuntime runtime.kind = .ok bytes

/-- The completed result names the frozen grade after the original artifacts. -/
structure IsCompleted (original : OperationResult) (selected : ArtifactRef) (costs : List CostRecord)
    (result : OperationResult) : Prop where
  operation : result.operation = original.operation
  disposition : result.disposition = original.disposition
  artifacts : result.artifacts = original.artifacts ++ [selected]
  evidence : ∃ own : EvidenceRecord, result.evidence = original.evidence ++ [own] ∧ own.artifacts = [selected] ∧
    own.exitStatus = if original.disposition = .success then 0 else 1
  same_costs : result.costs = costs
  reason : result.reason = original.reason

/-! ### Calls -/

inductive Phase where
  | requested
  | queued
  | claimed (claim : Claim)
  | intended (claim : Claim)
  | graded (claim : Claim) (result : OperationResult)
  | recorded (claim : Claim) (result : OperationResult)
  | costed (claim : Claim) (result : OperationResult)
  | stored (claim : Claim) (result : OperationResult) (original : ArtifactRef)
  | freezing (claim : Claim) (original : ArtifactRef) (costs : List CostRecord)
  | checked (claim : Claim) (original : ArtifactRef) (result : OperationResult) (costs : List CostRecord)
  | frozen (claim : Claim) (original : ArtifactRef) (result : OperationResult) (costs : List CostRecord)
      (selected : ArtifactRef)
  | observed (claim : Claim) (result : OperationResult) (costs : List CostRecord) (selected : ArtifactRef)
  | failing (claim : Claim) (pending : GradePublicationFailed)
  | noted (claim : Claim) (pending : GradePublicationFailed)
  | kept (claim : Claim) (pending : GradePublicationFailed) (ref : ArtifactRef)
  | recovering (claim : Claim)
  | pending (claim : Claim) (ref : ArtifactRef)

/-- The call may still dispatch the grader. -/
def Phase.mayDispatch : Phase → Bool
  | claimed _ | intended _ => true
  | _ => false

inductive Progress where
  | goes (phase : Phase)
  | returns (result : OperationResult)
  | raises (retained : List Phase)

/-- A publication that was retained under a claim. -/
structure Accepted where
  claim : Claim
  ref : ArtifactRef
  pending : GradePublicationFailed

/-- The registry and the store, the claims of the job, the attempts that dispatched the grader, what it
returned, and the publications that were accepted. -/
structure World where
  registry : State
  store : ArtifactStore
  claims : List Claim
  dispatched : List Digest
  outcome : Option GradePublicationFailed
  accepted : List Accepted

def receiptsOf (kind : Identifier) (item : ObservationRecord) : List ArtifactRef :=
  item.observation.receipts.val.filter fun ref => ref.kind = kind

/-- One step of a call: a registry operation, a write to the store, or a check between two of them. What a call
stores is registered by events of their own. A claim key is new, so nothing is observed yet for its attempt. -/
inductive CallStep (world : World) : Phase → World → Progress → Prop
  | enqueue {data : Json.Members} {next : State}
      (decoded : JobSpec.codec.validate (member data "spec") = some setting.spec)
      (event : State.Step setting.sha256 world.registry data .enqueue next) :
      CallStep world .requested { world with registry := next } (.goes .queued)
  | enqueued {job : JobRecord} (found : world.registry.jobs.get? setting.key = some job)
      (queued : job.state = .queued) : CallStep world .requested world (.goes .queued)
  | enqueuedCompleted {job : JobRecord} {result : OperationResult}
      (found : world.registry.jobs.get? setting.key = some job) (completed : job.state = .completed)
      (held : job.result = some result) : CallStep world .requested world (.returns result)
  | claim {claim : Claim} {data : Json.Members} {next : State}
      (decoded : Claim.codec.validate (member data "claim") = some claim) (own : claim.jobId = setting.key)
      (unused : ∀ item ∈ world.registry.observations.values, item.attemptId ≠ claim.attemptId)
      (event : State.Step setting.sha256 world.registry data .claim next) :
      CallStep world .queued { world with registry := next, claims := world.claims ++ [claim] }
        (.goes (.claimed claim))
  | intend {claim : Claim} {next : State}
      (observes : Observes setting world.registry claim [setting.request] intentCosts next) :
      CallStep world (.claimed claim) { world with registry := next } (.goes (.intended claim))
  | dispatchPublished {claim : Claim} {grade : GradePublicationFailed} {result : OperationResult}
      (published : grade.runtimePublications = [])
      (final : finalResult setting.hashing setting.graderRevision grade = some result) :
      CallStep world (.intended claim)
        { world with dispatched := world.dispatched ++ [claim.attemptId], outcome := some grade }
        (.goes (.graded claim result))
  | dispatchPending {claim : Claim} {grade : GradePublicationFailed} :
      CallStep world (.intended claim)
        { world with dispatched := world.dispatched ++ [claim.attemptId], outcome := some grade }
        (.goes (.failing claim grade))
  | dispatchLost {claim : Claim} :
      CallStep world (.intended claim) { world with dispatched := world.dispatched ++ [claim.attemptId] }
        (.raises [.recovering claim])
  | note {claim : Claim} {grade : GradePublicationFailed} {next : State}
      (observes : Observes setting world.registry claim [setting.request] (setting.actualCosts grade.costs) next) :
      CallStep world (.failing claim grade) { world with registry := next } (.goes (.noted claim grade))
  | keep {claim : Claim} {grade : GradePublicationFailed} {next : ArtifactStore} {ref : ArtifactRef}
      (retained : retainPending setting.hashing world.store claim setting.request grade = .ok (next, ref)) :
      CallStep world (.noted claim grade) { world with store := next } (.goes (.kept claim grade ref))
  | link {claim : Claim} {grade : GradePublicationFailed} {ref : ArtifactRef} {next : State}
      (observes : Observes setting world.registry claim [ref] (setting.actualCosts grade.costs) next) :
      CallStep world (.kept claim grade ref)
        { world with registry := next, accepted := world.accepted ++ [⟨claim, ref, grade⟩] }
        (.raises [.recovering claim])
  | recordCompleted {claim : Claim} {result held : OperationResult} {job : JobRecord}
      (valid : Validated setting world.registry claim job) (completed : job.state = .completed)
      (done : job.result = some held) : CallStep world (.graded claim result) world (.returns held)
  | record {claim : Claim} {result : OperationResult} {job : JobRecord} {item : ObservationRecord}
      (valid : Validated setting world.registry claim job) (pending : job.state ≠ .completed)
      (verifies : Verifies setting world.store result) (snapshot : Snapshot world.registry claim item)
      (selected : 1 < item.observation.revision.val → item.observation.costs = setting.actualCosts result.costs)
      (bounded : (PendingGradeResult.codec.dump ⟨claim, setting.request, result⟩).length ≤ maxDocument) :
      CallStep world (.graded claim result) world (.goes (.recorded claim result))
  | cost {claim : Claim} {result : OperationResult} {next : State}
      (observes : Observes setting world.registry claim [setting.request] (setting.actualCosts result.costs) next) :
      CallStep world (.recorded claim result) { world with registry := next } (.goes (.costed claim result))
  | original {claim : Claim} {result : OperationResult} {next : ArtifactStore} {ref : ArtifactRef}
      (put : putRecord setting.hashing world.store (OperationResult.codec.dump result) originalKind =
        .ok (next, ref)) :
      CallStep world (.costed claim result) { world with store := next } (.goes (.stored claim result ref))
  | bind {claim : Claim} {result : OperationResult} {ref : ArtifactRef} {next : State}
      (observes : Observes setting world.registry claim [ref] (setting.actualCosts result.costs) next) :
      CallStep world (.stored claim result ref) { world with registry := next }
        (.goes (.freezing claim ref (setting.actualCosts result.costs)))
  | recordFails {phase : Phase} {claim : Claim} {result : OperationResult}
      (during : phase = .recorded claim result ∨ phase = .costed claim result ∨
        ∃ ref, phase = .stored claim result ref) :
      CallStep world phase world (.raises [.graded claim result])
  | publishCompleted {claim : Claim} {ref : ArtifactRef} {costs : List CostRecord} {held : OperationResult}
      {job : JobRecord} (valid : Validated setting world.registry claim job) (completed : job.state = .completed)
      (done : job.result = some held) : CallStep world (.freezing claim ref costs) world (.returns held)
  | publish {claim : Claim} {ref : ArtifactRef} {costs : List CostRecord} {job : JobRecord}
      {item : ObservationRecord} {raw : Bytes} {result : OperationResult}
      (bounded : (FrozenGrade.codec.dump ⟨claim, setting.request, ref, costs⟩).length ≤ maxDocument)
      (valid : Validated setting world.registry claim job) (pending : job.state ≠ .completed)
      (snapshot : Snapshot world.registry claim item) (accounted : item.observation.costs = costs)
      (linked : ref ∈ item.observation.receipts.val)
      (read : readBytes setting.hashing world.store ref maxDocument originalKind = .ok raw)
      (decoded : OperationResult.codec.validateJson raw = some result)
      (canonical : OperationResult.codec.dump result = raw) (verifies : Verifies setting world.store result) :
      CallStep world (.freezing claim ref costs) world (.goes (.checked claim ref result costs))
  | freeze {claim : Claim} {ref selected : ArtifactRef} {result : OperationResult} {costs : List CostRecord}
      {next : ArtifactStore}
      (put : putRecord setting.hashing world.store
        (FrozenGrade.codec.dump ⟨claim, setting.request, ref, costs⟩) frozenKind = .ok (next, selected)) :
      CallStep world (.checked claim ref result costs) { world with store := next }
        (.goes (.frozen claim ref result costs selected))
  | observe {claim : Claim} {ref selected : ArtifactRef} {result : OperationResult} {costs : List CostRecord}
      {next : State} (observes : Observes setting world.registry claim [selected] costs next) :
      CallStep world (.frozen claim ref result costs selected) { world with registry := next }
        (.goes (.observed claim result costs selected))
  | publishFails {phase : Phase} {claim : Claim} {ref : ArtifactRef} {costs : List CostRecord}
      (during : (∃ result, phase = .checked claim ref result costs) ∨
        ∃ result selected, phase = .frozen claim ref result costs selected) :
      CallStep world phase world (.raises [.freezing claim ref costs])
  | complete {claim : Claim} {original result : OperationResult} {costs : List CostRecord}
      {selected : ArtifactRef} {data : Json.Members} {next : State}
      (decoded : Claim.codec.validate (member data "claim") = some claim) (own : claim.jobId = setting.key)
      (read : OperationResult.codec.validate (member data "result") = some result)
      (is : IsCompleted original selected costs result)
      (event : State.Step setting.sha256 world.registry data .complete next) :
      CallStep world (.observed claim original costs selected) { world with registry := next } (.returns result)
  | completed {claim : Claim} {original held : OperationResult} {costs : List CostRecord} {selected : ArtifactRef}
      {job : JobRecord} (found : world.registry.jobs.get? setting.key = some job)
      (completed : job.state = .completed) (done : job.result = some held) :
      CallStep world (.observed claim original costs selected) world (.returns held)
  | recovered {claim : Claim} {held : OperationResult} {job : JobRecord}
      (valid : Validated setting world.registry claim job) (completed : job.state = .completed)
      (done : job.result = some held) : CallStep world (.recovering claim) world (.returns held)
  | recoverFrozen {claim : Claim} {job : JobRecord} {item : ObservationRecord} {ref : ArtifactRef} {raw : Bytes}
      {grade : FrozenGrade} (valid : Validated setting world.registry claim job)
      (pending : job.state ≠ .completed) (snapshot : Snapshot world.registry claim item)
      (last : (receiptsOf frozenKind item).getLast? = some ref)
      (read : readBytes setting.hashing world.store ref maxDocument frozenKind = .ok raw)
      (decoded : FrozenGrade.codec.validateJson raw = some grade)
      (own : grade.claim = claim ∧ grade.request = setting.request) :
      CallStep world (.recovering claim) world (.goes (.freezing claim grade.original grade.costs))
  | recoverOriginal {claim : Claim} {job : JobRecord} {item : ObservationRecord} {ref : ArtifactRef}
      (valid : Validated setting world.registry claim job) (pending : job.state ≠ .completed)
      (snapshot : Snapshot world.registry claim item) (unfrozen : receiptsOf frozenKind item = [])
      (last : (receiptsOf originalKind item).getLast? = some ref) :
      CallStep world (.recovering claim) world (.goes (.freezing claim ref item.observation.costs))
  | recoverPending {claim : Claim} {job : JobRecord} {item : ObservationRecord} {ref : ArtifactRef}
      (valid : Validated setting world.registry claim job) (pending : job.state ≠ .completed)
      (snapshot : Snapshot world.registry claim item)
      (unfrozen : receiptsOf frozenKind item = [] ∧ receiptsOf originalKind item = [])
      (last : (receiptsOf pendingKind item).getLast? = some ref) :
      CallStep world (.recovering claim) world (.goes (.pending claim ref))
  | retried {claim : Claim} {ref : ArtifactRef} {grade : GradePublicationFailed} {item : ObservationRecord}
      {stored : Nat} {receipt : Bool} {result : OperationResult}
      (reconstructed : GradeJobs.recoverPending setting.hashing world.store claim ref =
        .ok (setting.request, grade)) (snapshot : Snapshot world.registry claim item)
      (accounted : setting.actualCosts grade.costs = item.observation.costs)
      (published : retryPublication setting.hashing setting.graderRevision grade stored receipt =
        .ok (some result)) :
      CallStep world (.pending claim ref) world (.goes (.graded claim result))
  | retriedPending {claim : Claim} {ref : ArtifactRef} {grade next : GradePublicationFailed}
      {item : ObservationRecord} {stored : Nat} {receipt : Bool}
      (reconstructed : GradeJobs.recoverPending setting.hashing world.store claim ref =
        .ok (setting.request, grade)) (snapshot : Snapshot world.registry claim item)
      (accounted : setting.actualCosts grade.costs = item.observation.costs)
      (pending : retryPublication setting.hashing setting.graderRevision grade stored receipt = .error next) :
      CallStep world (.pending claim ref) world (.goes (.failing claim next))

/-! ### Runs -/

/-- What callers hold after a call raised stands in `retained`. -/
structure System where
  world : World
  calls : List Phase
  retained : List Phase
  returned : List OperationResult

/-- A registry event about other jobs. -/
structure Foreign (world : World) (action : Action) (data : Json.Members) : Prop where
  enqueue : action = .enqueue → ∀ spec, JobSpec.codec.validate (member data "spec") = some spec →
    spec ≠ setting.spec ∧ State.jobKey setting.sha256 spec ≠ setting.key
  moves : action = .claim ∨ action = .complete → ∀ claim,
    Claim.codec.validate (member data "claim") = some claim → claim.jobId ≠ setting.key
  reconcile : action = .reconcile → ∀ claim, Claim.codec.validate (member data "claim") = some claim →
    ∀ other ∈ world.claims, claim.attemptId ≠ other.attemptId

/-- A call is made, a recovery is called with any claim, or a retry with something retained. A call that crashes
stops; what it wrote stays. Other processes use the registry and the store. -/
inductive SystemStep : System → System → Prop
  | grade {system : System} : SystemStep system { system with calls := .requested :: system.calls }
  | recover {system : System} (claim : Claim) :
      SystemStep system { system with calls := .recovering claim :: system.calls }
  | retry {system : System} {phase : Phase} (held : phase ∈ system.retained) :
      SystemStep system { system with calls := phase :: system.calls }
  | goes {system : System} {before after : List Phase} {phase next : Phase} {world : World}
      (runs : system.calls = before ++ phase :: after)
      (step : CallStep setting system.world phase world (.goes next)) :
      SystemStep system { system with world := world, calls := before ++ next :: after }
  | returns {system : System} {before after : List Phase} {phase : Phase} {world : World}
      {result : OperationResult} (runs : system.calls = before ++ phase :: after)
      (step : CallStep setting system.world phase world (.returns result)) :
      SystemStep system { system with
        world := world, calls := before ++ after, returned := system.returned ++ [result] }
  | raises {system : System} {before after : List Phase} {phase : Phase} {world : World} {kept : List Phase}
      (runs : system.calls = before ++ phase :: after)
      (step : CallStep setting system.world phase world (.raises kept)) :
      SystemStep system { system with
        world := world, calls := before ++ after, retained := system.retained ++ kept }
  | crash {system : System} {before after : List Phase} {phase : Phase}
      (runs : system.calls = before ++ phase :: after) :
      SystemStep system { system with calls := before ++ after }
  | foreign {system : System} {action : Action} {data : Json.Members} {next : State}
      (quiet : Foreign setting system.world action data)
      (event : State.Step setting.sha256 system.world.registry data action next) :
      SystemStep system { system with world := { system.world with registry := next } }
  | stored {system : System} {next : ArtifactStore} (larger : system.world.store.Extends next) :
      SystemStep system { system with world := { system.world with store := next } }

inductive Reaches (system : System) : System → Prop
  | refl : Reaches system system
  | step {middle next : System} (earlier : Reaches system middle) (step : SystemStep setting middle next) :
      Reaches system next

end GradeJobs

end FeatureRl
